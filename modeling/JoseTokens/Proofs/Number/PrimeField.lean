import JoseTokens.Proofs.Number.Modular
import Mathlib.FieldTheory.Finite.Basic

namespace JoseTokens.Number

variable {m : Nat} [Fact m.Prime]

theorem cast_difference (a b : Nat) : (((a + (m - b % m)) % m : Nat) : ZMod m) = a - b := by
  have hle : b % m ≤ m := (Nat.mod_lt b (Fact.out : m.Prime).pos).le
  rw [ZMod.natCast_mod, Nat.cast_add, Nat.cast_sub hle, ZMod.natCast_mod, ZMod.natCast_self]
  ring

theorem cast_eq_zero {a : Nat} (h : a < m) : (a : ZMod m) = 0 ↔ a = 0 := by
  rw [ZMod.natCast_eq_zero_iff]
  exact ⟨fun hdvd => Nat.eq_zero_of_dvd_of_lt hdvd h, fun ha => ha ▸ dvd_zero m⟩

theorem cast_inj {a b : Nat} (ha : a < m) (hb : b < m) : (a : ZMod m) = b ↔ a = b := by
  rw [ZMod.natCast_eq_natCast_iff', Nat.mod_eq_of_lt ha, Nat.mod_eq_of_lt hb]

theorem cast_mod_eq {a b : Nat} : a % m = b % m ↔ (a : ZMod m) = b :=
  (ZMod.natCast_eq_natCast_iff' a b m).symm

theorem cast_powMod (b e : Nat) : ((powMod b e m : Nat) : ZMod m) = (b : ZMod m) ^ e := by
  rw [powMod_eq, ZMod.natCast_mod, Nat.cast_pow]

theorem cast_inverse {a : Nat} (h : (a : ZMod m) ≠ 0) :
    ((powMod a (m - 2) m : Nat) : ZMod m) = (a : ZMod m)⁻¹ := by
  have htwo : 2 ≤ m := (Fact.out : m.Prime).two_le
  rw [cast_powMod]
  refine eq_inv_of_mul_eq_one_left ?_
  rw [← pow_succ, show m - 2 + 1 = m - 1 by omega]
  exact ZMod.pow_card_sub_one_eq_one h

end JoseTokens.Number
