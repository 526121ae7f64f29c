import JoseTokens.Number.Modular
import Mathlib.Data.Int.GCD
import Mathlib.Data.Int.ModEq
import Mathlib.Data.Nat.ModEq
import Mathlib.Tactic.Ring

namespace JoseTokens.Number

theorem powModWithin_eq (bits b e m : Nat) (he : e < 2 ^ bits) :
    powModWithin bits b e m = b ^ e % m := by
  induction bits generalizing b e with
  | zero =>
      obtain rfl : e = 0 := Nat.lt_one_iff.mp he
      rfl
  | succ bits ih =>
      have hhalf : e / 2 < 2 ^ bits := by
        rw [Nat.pow_succ] at he
        omega
      have hrest : powModWithin bits (b * b % m) (e / 2) m = b ^ (2 * (e / 2)) % m := by
        rw [ih _ _ hhalf, ← Nat.pow_mod, pow_mul, pow_two]
      rw [powModWithin]
      simp only [hrest]
      rcases Nat.mod_two_eq_zero_or_one e with heven | hodd
      · rw [if_neg (by omega), show 2 * (e / 2) = e by omega]
      · have hsucc : e = 2 * (e / 2) + 1 := by omega
        rw [if_pos hodd, Nat.mul_mod_mod, ← pow_succ', ← hsucc]

theorem powMod_eq (b e m : Nat) : powMod b e m = b ^ e % m := by
  rw [powMod, powModWithin_eq _ _ _ _ Nat.lt_log2_self, ← Nat.pow_mod]

theorem bezout_spec (a b : Nat) :
    (a : Int) * (bezout a b).1 + b * (bezout a b).2 = Nat.gcd a b := by
  fun_induction bezout a b with
  | case1 a => simp
  | case2 a b hb x y hxy ih =>
      rw [hxy] at ih
      have hdiv : (a : Int) = b * (a / b : Nat) + (a % b : Nat) := by
        exact_mod_cast (Nat.div_add_mod a b).symm
      have hgcd : Nat.gcd b (a % b) = Nat.gcd a b := by
        rw [Nat.gcd_comm b, ← Nat.gcd_rec, Nat.gcd_comm]
      rw [← hgcd, ← ih]
      simp only
      nth_rewrite 1 [hdiv]
      ring

theorem inverse?_isSome {a m : Nat} (h : Nat.Coprime a m) : ∃ x, inverse? a m = some x := by
  rw [inverse?, if_pos h]
  exact ⟨_, rfl⟩

theorem inverse?_spec {a m x : Nat} (hm : 1 < m) (h : inverse? a m = some x) :
    a * x ≡ 1 [MOD m] := by
  rw [inverse?] at h
  split at h
  next hgcd =>
    have hbezout := bezout_spec a m
    rw [hgcd] at hbezout
    obtain rfl := Option.some.inj h
    have hpos : 0 ≤ (bezout a m).1.emod m := Int.emod_nonneg _ (by omega)
    have hcoefficient : (bezout a m).1.emod m ≡ (bezout a m).1 [ZMOD m] := Int.mod_modEq _ _
    have hproduct : (a : Int) * (bezout a m).1 ≡ 1 [ZMOD m] := by
      have hone : (a : Int) * (bezout a m).1 = 1 - m * (bezout a m).2 := by
        rw [Nat.cast_one] at hbezout
        omega
      rw [hone]
      exact (Int.modEq_iff_dvd.mpr ⟨(bezout a m).2, by ring⟩)
    rw [← Int.natCast_modEq_iff, Nat.cast_mul, Int.toNat_of_nonneg hpos, Nat.cast_one]
    exact (hcoefficient.mul_left _).trans hproduct
  · cases h

end JoseTokens.Number
