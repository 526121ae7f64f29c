import JoseTokens.Proofs.Curve.Secp256k1
import Mathlib.GroupTheory.Perm.Cycle.Type

namespace JoseTokens.Secp256k1

open Number

theorem negY_eq (x y : ZMod p) : curve.toAffine.negY x y = -y := by
  simp [WeierstrassCurve.Affine.negY, curve]

def code : Group → Option (ZMod p × Bool)
  | .zero => none
  | .some x y _ => some (x, decide (y.val % 2 = 1))

theorem eq_of_parity {y : ZMod p} (h : (-y).val % 2 = y.val % 2) : -y = y := by
  by_cases hy : y = 0
  · rw [hy, neg_zero]
  · have hodd : p % 2 = 1 := by decide
    have hlt : y.val < p := y.val_lt
    have hneg : (-y).val = p - y.val := by
      rw [ZMod.neg_val, if_neg hy]
    omega

theorem code_injective : Function.Injective code := by
  intro P Q h
  cases P with
  | zero =>
      cases Q with
      | zero => rfl
      | some x y hQ => cases h
  | some x y hP =>
      cases Q with
      | zero => cases h
      | some x' y' hQ =>
          obtain ⟨rfl, hparity⟩ := Prod.mk.inj (Option.some.inj h)
          have hy : y = y' := by
            rcases WeierstrassCurve.Affine.Y_eq_of_X_eq hP.1 hQ.1 rfl with hy | hy
            · exact hy
            · rw [negY_eq] at hy
              subst hy
              refine eq_of_parity ?_
              have hodd := decide_eq_decide.mp hparity
              omega
          subst hy
          rfl

instance : Finite Group :=
  Finite.of_injective code code_injective

theorem card_le : Nat.card Group ≤ 2 * p + 1 := by
  have hcard := Nat.card_le_card_of_injective code code_injective
  have hbool : Nat.card Bool = 2 := Nat.card_eq_fintype_card
  rwa [Finite.card_option, Nat.card_prod, Nat.card_zmod, hbool, mul_comm] at hcard

theorem cube_add_seven_ne_zero (x : ZMod p) : x ^ 3 + 7 ≠ 0 := by
  intro hzero
  have hcube : x ^ 3 = ((p - 7 : Nat) : ZMod p) := by
    rw [Nat.cast_sub (by decide), ZMod.natCast_self]
    linear_combination hzero
  have hx : x ≠ 0 := by
    rintro rfl
    have hseven : ((7 : Nat) : ZMod p) = 0 := by simpa using hzero
    exact absurd ((cast_eq_zero (by decide)).mp hseven) (by decide)
  have hpower : ((powMod (p - 7) ((p - 1) / 3) p : Nat) : ZMod p) = (1 : Nat) := by
    rw [cast_powMod, ← hcube, ← pow_mul, Nat.mul_div_cancel' (by decide), Nat.cast_one]
    exact ZMod.pow_card_sub_one_eq_one hx
  have hone : powMod (p - 7) ((p - 1) / 3) p % p = 1 % p := cast_mod_eq.mpr hpower
  exact absurd hone (by decide +kernel)

theorem self_ne_neg {P : Group} (hP : P ≠ 0) : P ≠ -P := by
  intro h
  cases P with
  | zero => exact hP rfl
  | some x y hnonsingular =>
      rw [WeierstrassCurve.Affine.Point.neg_some] at h
      have hy := (WeierstrassCurve.Affine.Point.some.inj h).2
      rw [negY_eq] at hy
      have hodd : 2 * y.val ≠ p := fun heven => absurd (heven ▸ Nat.mul_mod_right 2 _) (by decide)
      have hzero : y = 0 := ((ZMod.neg_eq_self_iff y).mp hy.symm).resolve_right hodd
      have hequation := (WeierstrassCurve.Affine.equation_iff _ _).mp hnonsingular.1
      refine cube_add_seven_ne_zero x ?_
      simpa [curve, hzero] using hequation.symm

theorem card_eq : Nat.card Group = n := by
  have hdvd : n ∣ Nat.card Group := addOrderOf_G ▸ addOrderOf_dvd_natCard G
  obtain ⟨index, hindex⟩ := hdvd
  have hpos : 0 < Nat.card Group := Nat.card_pos
  have hle := card_le
  -- Three times the order of the generator is over the bound.
  have hsmall : 2 * p + 1 < n * 3 := by decide
  have hbound : index < 3 := by
    refine Nat.lt_of_mul_lt_mul_left (a := n) ?_
    omega
  interval_cases index
  · omega
  · omega
  · have htwo : 2 ∣ Nat.card Group := ⟨n, by omega⟩
    obtain ⟨P, hP⟩ := exists_prime_addOrderOf_dvd_card' 2 htwo
    have hsum : P + P = 0 := by
      rw [← two_nsmul, ← hP, addOrderOf_nsmul_eq_zero]
    have hne : P ≠ 0 := by
      rintro rfl
      rw [addOrderOf_zero] at hP
      omega
    exact absurd (eq_neg_of_add_eq_zero_left hsum) (self_ne_neg hne)

theorem nsmul_eq_zero (P : Group) : n • P = 0 := by
  rw [← card_eq]
  exact card_nsmul_eq_zero'

end JoseTokens.Secp256k1
