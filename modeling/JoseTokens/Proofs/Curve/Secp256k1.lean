import JoseTokens.Proofs.Curve.Primes
import JoseTokens.Proofs.Number.PrimeField
import Mathlib.AlgebraicGeometry.EllipticCurve.Jacobian.Point
import Mathlib.GroupTheory.OrderOfElement

namespace JoseTokens.Secp256k1

open Number

instance : Fact p.Prime :=
  ⟨prime_p⟩

instance : Fact n.Prime :=
  ⟨prime_n⟩

def curve : WeierstrassCurve (ZMod p) :=
  ⟨0, 0, 0, 0, 7⟩

abbrev Group : Type :=
  curve.toAffine.Point

namespace Jacobian

def triple (q : Jacobian) : Fin 3 → ZMod p :=
  ![q.x, q.y, q.z]

theorem triple_congr {x y z x' y' z' : ZMod p} (hx : x = x') (hy : y = y') (hz : z = z') :
    ![x, y, z] = ![x', y', z'] := by
  rw [hx, hy, hz]

structure Stands (q : Jacobian) (P : Group) : Prop where
  y_lt : q.y < p
  z_lt : q.z < p
  nonsingular : curve.toJacobian.Nonsingular q.triple
  value : WeierstrassCurve.Jacobian.Point.toAffine curve.toJacobian q.triple = P

theorem cast_sub (a b : Nat) : ((sub a b : Nat) : ZMod p) = a - b :=
  cast_difference a b

theorem sub_lt (a b : Nat) : sub a b < p :=
  Nat.mod_lt _ prime_p.pos

section

variable {q r : Jacobian} {P Q : Group}

theorem stands_infinity : Stands infinity 0 where
  y_lt := prime_p.one_lt
  z_lt := prime_p.pos
  nonsingular := by
    have htriple : infinity.triple = ![1, 1, 0] := by
      simp [triple, infinity]
    rw [htriple]
    exact WeierstrassCurve.Jacobian.nonsingular_zero
  value := WeierstrassCurve.Jacobian.Point.toAffine_of_Z_eq_zero (by simp [triple, infinity])

open WeierstrassCurve.Jacobian in
theorem triple_double (h : ¬ (q.y = 0 ∨ q.z = 0)) :
    q.double.triple = curve.toJacobian.dblXYZ q.triple := by
  rw [double, if_neg h]
  simp only [triple, dblXYZ, dblX, dblY, negDblY, dblZ, dblU_eq, negY, curve, Matrix.cons_val]
  refine triple_congr ?_ ?_ ?_ <;>
    simp only [ZMod.natCast_mod, cast_sub, Nat.cast_mul, Nat.cast_ofNat] <;> ring

open WeierstrassCurve.Jacobian in
theorem triple_add (hq : curve.toJacobian.Equation q.triple)
    (hr : curve.toJacobian.Equation r.triple) (hqz : q.z ≠ 0) (hrz : r.z ≠ 0)
    (hx : q.x * (r.z * r.z % p) % p ≠ r.x * (q.z * q.z % p) % p) :
    (q.add r).triple = (-(q.z * r.z : ZMod p)) • curve.toJacobian.addXYZ q.triple r.triple := by
  have haddX := addX_eq' hq hr
  have haddY := @negAddY_eq' _ _ curve.toJacobian q.triple r.triple
  rw [haddX] at haddY
  rw [add, if_neg hqz, if_neg hrz]
  simp only [if_neg hx]
  rw [smul_fin3]
  simp only [triple, curve, addZ, Matrix.cons_val] at haddX haddY
  simp only [triple, addXYZ, addY, negY, addZ, curve, Matrix.cons_val]
  refine triple_congr ?_ ?_ ?_ <;>
    simp only [ZMod.natCast_mod, cast_sub, Nat.cast_mul, Nat.cast_add, Nat.cast_ofNat]
  · linear_combination -haddX
  · linear_combination -haddY
  · ring

theorem Stands.zero_iff (h : Stands q P) : q.triple 2 = 0 ↔ q.z = 0 :=
  cast_eq_zero h.z_lt

theorem Stands.eq_zero (h : Stands q P) (hz : q.z = 0) : P = 0 := by
  rw [← h.value]
  exact WeierstrassCurve.Jacobian.Point.toAffine_of_Z_eq_zero (h.zero_iff.mpr hz)

theorem double_lt (q : Jacobian) : q.double.y < p ∧ q.double.z < p := by
  rw [double]
  split
  · exact ⟨prime_p.one_lt, prime_p.pos⟩
  · exact ⟨sub_lt _ _, Nat.mod_lt _ prime_p.pos⟩

open WeierstrassCurve.Jacobian in
theorem Stands.double (h : Stands q P) : Stands q.double (P + P) := by
  have hsum := Point.toAffine_add h.nonsingular h.nonsingular
  rw [add_self, h.value] at hsum
  by_cases hdegenerate : q.y = 0 ∨ q.z = 0
  · have hz : curve.toJacobian.dblXYZ q.triple 2 = 0 := by
      rw [dblXYZ_Z, dblZ, negY]
      rcases hdegenerate with hy | hz
      · simp [triple, curve, hy]
      · simp [triple, hz]
    rw [Point.toAffine_of_Z_eq_zero hz] at hsum
    rw [← hsum, Jacobian.double, if_pos hdegenerate]
    exact stands_infinity
  · have htriple := triple_double hdegenerate
    refine ⟨(double_lt q).1, (double_lt q).2, ?_, ?_⟩
    · rw [htriple, ← add_self]
      exact nonsingular_add h.nonsingular h.nonsingular
    · rw [htriple, hsum]

theorem add_lt (hq : q.y < p ∧ q.z < p) (hr : r.y < p ∧ r.z < p) :
    (q.add r).y < p ∧ (q.add r).z < p := by
  rw [add]
  split
  · exact hr
  · split
    · exact hq
    · simp only
      split
      · split
        · exact double_lt q
        · exact ⟨prime_p.one_lt, prime_p.pos⟩
      · exact ⟨sub_lt _ _, Nat.mod_lt _ prime_p.pos⟩

theorem x_eq_iff (q r : Jacobian) :
    q.x * (r.z * r.z % p) % p = r.x * (q.z * q.z % p) % p ↔
      q.triple 0 * r.triple 2 ^ 2 = r.triple 0 * q.triple 2 ^ 2 := by
  rw [cast_mod_eq]
  simp [triple, pow_two]

theorem y_eq_iff (q r : Jacobian) :
    q.y * (r.z * r.z % p) * r.z % p = r.y * (q.z * q.z % p) * q.z % p ↔
      q.triple 1 * r.triple 2 ^ 3 = r.triple 1 * q.triple 2 ^ 3 := by
  rw [cast_mod_eq]
  simp [triple, pow_succ, mul_assoc]

open WeierstrassCurve.Jacobian in
theorem Stands.add (h : Stands q P) (h' : Stands r Q) : Stands (q.add r) (P + Q) := by
  have hsum := Point.toAffine_add h.nonsingular h'.nonsingular
  rw [h.value, h'.value] at hsum
  by_cases hqz : q.z = 0
  · rw [h.eq_zero hqz, zero_add, Jacobian.add, if_pos hqz]
    exact h'
  by_cases hrz : r.z = 0
  · rw [h'.eq_zero hrz, add_zero, Jacobian.add, if_neg hqz, if_pos hrz]
    exact h
  have hqz' := h.zero_iff.not.mpr hqz
  have hrz' := h'.zero_iff.not.mpr hrz
  by_cases hx : q.x * (r.z * r.z % p) % p = r.x * (q.z * q.z % p) % p
  · have hx' := (x_eq_iff q r).mp hx
    by_cases hy : q.y * (r.z * r.z % p) * r.z % p = r.y * (q.z * q.z % p) * q.z % p
    · have hequiv := equiv_of_X_eq_of_Y_eq hqz' hrz' hx' ((y_eq_iff q r).mp hy)
      have hsame : P = Q := by
        rw [← h.value, ← h'.value, Point.toAffine_of_equiv hequiv]
      rw [← hsame, Jacobian.add, if_neg hqz, if_neg hrz]
      simp only [if_pos hx, if_pos hy]
      exact h.double
    · -- Other points with the same abscissa are opposite.
      have hopposite := not_equiv_of_Y_ne ((y_eq_iff q r).not.mp hy)
      rw [add_of_not_equiv hopposite, Point.toAffine_of_Z_eq_zero (addZ_of_X_eq hx')] at hsum
      rw [← hsum, Jacobian.add, if_neg hqz, if_neg hrz]
      simp only [if_pos hx, if_neg hy]
      exact stands_infinity
  · have hother := not_equiv_of_X_ne ((x_eq_iff q r).not.mp hx)
    have htriple := triple_add h.nonsingular.1 h'.nonsingular.1 hqz hrz hx
    have hunit : IsUnit (-(q.z * r.z : ZMod p)) := (mul_ne_zero hqz' hrz').isUnit.neg
    obtain ⟨hy, hz⟩ := add_lt ⟨h.y_lt, h.z_lt⟩ ⟨h'.y_lt, h'.z_lt⟩
    refine ⟨hy, hz, ?_, ?_⟩
    · rw [htriple, nonsingular_smul _ hunit, ← add_of_not_equiv hother]
      exact nonsingular_add h.nonsingular h'.nonsingular
    · rw [htriple, Point.toAffine_smul _ hunit, ← add_of_not_equiv hother, hsum]

theorem Stands.mulWithin (h : Stands q P) (bits k : Nat) {total : Jacobian} {T : Group}
    (htotal : Stands total T) :
    Stands (mulWithin bits k q total) (T + (k % 2 ^ bits) • P) := by
  induction bits generalizing k q total P T with
  | zero =>
      rw [pow_zero, Nat.mod_one, zero_nsmul, add_zero]
      exact htotal
  | succ bits ih =>
      have hsplit : k % 2 ^ (bits + 1) = k % 2 + 2 * (k / 2 % 2 ^ bits) := by
        rw [pow_succ', Nat.mod_mul]
      have hvalue : T + (k % 2 ^ (bits + 1)) • P =
          T + (k % 2) • P + (k / 2 % 2 ^ bits) • (P + P) := by
        rw [hsplit, add_nsmul, mul_nsmul, two_nsmul, add_assoc]
      rw [hvalue, Jacobian.mulWithin]
      refine ih h.double (k / 2) ?_
      rcases Nat.mod_two_eq_zero_or_one k with hbit | hbit
      · rw [hbit, zero_nsmul, add_zero, if_neg (by decide)]
        exact htotal
      · rw [hbit, one_nsmul, if_pos rfl]
        exact htotal.add h

theorem Stands.mul {k : Nat} (h : Stands q P) (hk : k < 2 ^ 256) : Stands (q.mul k) (k • P) := by
  have hmul := h.mulWithin 256 k stands_infinity
  rw [Nat.mod_eq_of_lt hk, zero_add] at hmul
  exact hmul

end

end Jacobian

structure IsAt (point : Point) (P : Group) : Prop where
  x_lt : point.x < p
  y_lt : point.y < p
  value : ∃ h, P = .some (point.x : ZMod p) (point.y : ZMod p) h

open WeierstrassCurve.Jacobian in
theorem Jacobian.Stands.toPoint?_of_z_ne_zero {q : Jacobian} {P : Group} (h : q.Stands P)
    (hz : q.z ≠ 0) : ∃ point, q.toPoint? = some point ∧ IsAt point P := by
  have hz' : (q.z : ZMod p) ≠ 0 := h.zero_iff.not.mpr hz
  refine ⟨_, if_neg hz, Nat.mod_lt _ prime_p.pos, Nat.mod_lt _ prime_p.pos, ?_⟩
  have hvalue := Point.toAffine_of_Z_ne_zero h.nonsingular hz'
  rw [h.value] at hvalue
  have hx : ((q.x * (powMod q.z (p - 2) p * powMod q.z (p - 2) p % p) % p : Nat) :
      ZMod p) = q.triple 0 / q.triple 2 ^ 2 := by
    simp only [ZMod.natCast_mod, Nat.cast_mul, cast_inverse hz', triple, Matrix.cons_val]
    rw [div_eq_mul_inv, ← inv_pow, pow_two]
  have hy : ((q.y * (powMod q.z (p - 2) p * powMod q.z (p - 2) p % p) *
      powMod q.z (p - 2) p % p : Nat) : ZMod p) = q.triple 1 / q.triple 2 ^ 3 := by
    simp only [ZMod.natCast_mod, Nat.cast_mul, cast_inverse hz', triple, Matrix.cons_val]
    rw [div_eq_mul_inv, ← inv_pow, pow_succ, pow_two, mul_assoc]
  simp only [hx, hy]
  exact ⟨(nonsingular_of_Z_ne_zero hz').mp h.nonsingular, hvalue⟩

theorem Jacobian.Stands.toPoint? {q : Jacobian} {P : Group} (h : q.Stands P) (hP : P ≠ 0) :
    ∃ point, q.toPoint? = some point ∧ IsAt point P :=
  h.toPoint?_of_z_ne_zero fun hz => hP (h.eq_zero hz)

theorem discriminant_ne_zero : curve.Δ ≠ 0 := by
  have hvalue : curve.Δ = -((21168 : Nat) : ZMod p) := by
    simp only [WeierstrassCurve.Δ, WeierstrassCurve.b₂, WeierstrassCurve.b₄, WeierstrassCurve.b₆,
      WeierstrassCurve.b₈, curve]
    norm_num
  rw [hvalue, neg_ne_zero]
  exact (cast_eq_zero (by decide)).not.mpr (by decide)

theorem onCurve_iff {point : Point} : onCurve point = true ↔
    point.x < p ∧ point.y < p ∧ curve.toAffine.Equation (point.x : ZMod p) point.y := by
  rw [WeierstrassCurve.Affine.equation_iff]
  simp only [onCurve, Bool.and_eq_true, decide_eq_true_eq, beq_iff_eq, cast_mod_eq, and_assoc]
  simp [curve, pow_succ, mul_assoc]

theorem onCurve_iff_isAt {point : Point} : onCurve point = true ↔ ∃ P, IsAt point P := by
  rw [onCurve_iff]
  constructor
  · rintro ⟨hx, hy, hequation⟩
    have hnonsingular :=
      (WeierstrassCurve.Affine.equation_iff_nonsingular_of_Δ_ne_zero discriminant_ne_zero).mp
        hequation
    exact ⟨.some _ _ hnonsingular, hx, hy, hnonsingular, rfl⟩
  · rintro ⟨P, hx, hy, hnonsingular, -⟩
    exact ⟨hx, hy, hnonsingular.1⟩

theorem IsAt.onCurve {point : Point} {P : Group} (h : IsAt point P) : onCurve point = true :=
  onCurve_iff_isAt.mpr ⟨P, h⟩

theorem IsAt.point_eq {a b : Point} {P : Group} (h : IsAt a P) (h' : IsAt b P) : a = b := by
  obtain ⟨ax, ay⟩ := a
  obtain ⟨bx, bY⟩ := b
  obtain ⟨hxa, hya, hna, rfl⟩ := h
  obtain ⟨hxb, hyb, hnb, heq⟩ := h'
  obtain ⟨hx, hy⟩ := WeierstrassCurve.Affine.Point.some.inj heq
  exact congrArg₂ Point.mk ((cast_inj hxa hxb).mp hx) ((cast_inj hya hyb).mp hy)

open WeierstrassCurve.Jacobian in
theorem Jacobian.stands_ofPoint {point : Point} {P : Group} (h : IsAt point P) :
    (ofPoint point).Stands P := by
  obtain ⟨-, hy, hnonsingular, rfl⟩ := h
  have htriple : (ofPoint point).triple = ![(point.x : ZMod p), point.y, 1] := by
    simp [triple, ofPoint]
  have hjacobian : curve.toJacobian.Nonsingular (ofPoint point).triple := by
    rw [htriple, nonsingular_some]
    exact hnonsingular
  refine ⟨hy, prime_p.one_lt, hjacobian, ?_⟩
  rw [htriple]
  exact Point.toAffine_some (htriple ▸ hjacobian)

theorem Jacobian.Stands.toPoint?_eq_some_iff {q : Jacobian} {P : Group} (h : q.Stands P)
    {point : Point} : q.toPoint? = some point ↔ IsAt point P := by
  by_cases hz : q.z = 0
  · have hP : P = 0 := h.eq_zero hz
    constructor
    · intro hpoint
      rw [Jacobian.toPoint?, if_pos hz] at hpoint
      cases hpoint
    · rintro ⟨-, -, hnonsingular, hvalue⟩
      exact absurd (hvalue.symm.trans hP) (WeierstrassCurve.Affine.Point.some_ne_zero hnonsingular)
  · obtain ⟨found, hfound, hisAt⟩ := h.toPoint?_of_z_ne_zero hz
    rw [hfound, Option.some.injEq]
    exact ⟨fun heq => heq ▸ hisAt, hisAt.point_eq⟩

theorem onCurve_generator : onCurve generator = true := by
  decide +kernel

theorem nonsingular_generator :
    curve.toAffine.Nonsingular (generator.x : ZMod p) generator.y := by
  obtain ⟨P, -, -, hnonsingular, -⟩ := onCurve_iff_isAt.mp onCurve_generator
  exact hnonsingular

noncomputable def G : Group :=
  .some _ _ nonsingular_generator

theorem Jacobian.stands_generator : (ofPoint generator).Stands G :=
  stands_ofPoint ⟨by decide, by decide, nonsingular_generator, rfl⟩

theorem mul_order : ((Jacobian.ofPoint generator).mul n).z = 0 := by
  decide +kernel

theorem nsmul_order : n • G = 0 :=
  (Jacobian.stands_generator.mul (by decide)).eq_zero mul_order

theorem G_ne_zero : G ≠ 0 :=
  WeierstrassCurve.Affine.Point.some_ne_zero _

theorem addOrderOf_G : addOrderOf G = n :=
  addOrderOf_eq_prime nsmul_order G_ne_zero

theorem nsmul_G_ne_zero {k : Nat} (hpos : 0 < k) (hk : k < n) : k • G ≠ 0 := by
  intro hzero
  have hdvd := addOrderOf_dvd_of_nsmul_eq_zero hzero
  rw [addOrderOf_G] at hdvd
  exact absurd (Nat.le_of_dvd hpos hdvd) (by omega)

theorem publicPoint?_spec {k : Nat} (hpos : 0 < k) (hk : k < n) :
    ∃ point, publicPoint? k = some point ∧ IsAt point (k • G) := by
  have hbound : k < 2 ^ 256 := hk.trans (by decide)
  exact (Jacobian.stands_generator.mul hbound).toPoint? (nsmul_G_ne_zero hpos hk)

end JoseTokens.Secp256k1
