import JoseTokens.Proofs.Curve.Primes
import JoseTokens.Proofs.Number.Octets
import JoseTokens.Proofs.Number.PrimeField
import Mathlib.NumberTheory.LegendreSymbol.Basic

namespace JoseTokens.Ed25519

open Number

instance : Fact p.Prime :=
  ⟨prime_p⟩

theorem cast_sub (a b : Nat) : ((sub a b : Nat) : ZMod p) = a - b :=
  cast_difference a b

theorem sub_lt (a b : Nat) : sub a b < p :=
  Nat.mod_lt _ prime_p.pos

theorem rootOfMinusOne_sq : (rootOfMinusOne : ZMod p) ^ 2 = -1 := by
  have hsquare : (rootOfMinusOne * rootOfMinusOne + 1) % p = 0 % p := by decide +kernel
  rw [cast_mod_eq] at hsquare
  push_cast at hsquare
  linear_combination hsquare

theorem two_ne_zero_p : (2 : ZMod p) ≠ 0 := by
  have htwo := (cast_eq_zero (m := p) (a := 2) (by decide)).not.mpr (by decide)
  exact_mod_cast htwo

theorem not_isSquare_d : ¬ IsSquare (d : ZMod p) := by
  have hd : (d : ZMod p) ≠ 0 := (cast_eq_zero (by decide)).not.mpr (by decide)
  rw [ZMod.euler_criterion p hd, ← cast_powMod]
  have hpower : powMod d (p / 2) p = p - 1 := by decide +kernel
  have hone : ((p - 1 : Nat) : ZMod p) = 1 ↔ ((p - 1 : Nat) : ZMod p) = (1 : Nat) := by
    rw [Nat.cast_one]
  rw [hpower, hone, cast_inj (by decide) (by decide)]
  decide

theorem eq_zero_of_sq_eq {a b : ZMod p} (h : a ^ 2 = d * b ^ 2) : b = 0 := by
  by_contra hb
  refine not_isSquare_d ⟨a / b, ?_⟩
  field_simp
  exact h.symm

structure Affine where
  x : ZMod p
  y : ZMod p
  onCurve : -x ^ 2 + y ^ 2 = 1 + d * x ^ 2 * y ^ 2

namespace Affine

def cross (P Q : Affine) : ZMod p :=
  d * P.x * Q.x * P.y * Q.y

theorem cross_sq_ne_one (P Q : Affine) : P.cross Q ^ 2 ≠ 1 := by
  intro hcross
  obtain ⟨x₁, y₁, h₁⟩ := P
  obtain ⟨x₂, y₂, h₂⟩ := Q
  simp only [cross] at hcross
  have hmembers : x₁ ≠ 0 ∧ y₁ ≠ 0 ∧ y₂ ≠ 0 := by
    refine ⟨?_, ?_, ?_⟩ <;> rintro rfl <;> simp at hcross
  obtain ⟨hx₁, hy₁, hy₂⟩ := hmembers
  have hroot {i : ZMod p} (hi : i ^ 2 = -1) : i * x₂ + y₂ = 0 := by
    have hsquare : (i * x₁ + d * x₁ * x₂ * y₁ * y₂ * y₁) ^ 2 =
        d * (x₁ * y₁ * (i * x₂ + y₂)) ^ 2 := by
      linear_combination (x₁ ^ 2 - d * x₁ ^ 2 * y₁ ^ 2 * x₂ ^ 2) * hi + h₁ -
        d * x₁ ^ 2 * y₁ ^ 2 * h₂ + (y₁ ^ 2 - 1) * hcross
    rcases mul_eq_zero.mp (eq_zero_of_sq_eq hsquare) with hproduct | hzero
    · exact absurd hproduct (mul_ne_zero hx₁ hy₁)
    · exact hzero
  have hplus := hroot rootOfMinusOne_sq
  have hminus := hroot (i := -rootOfMinusOne) (by rw [neg_sq, rootOfMinusOne_sq])
  have htwice : 2 * y₂ = 0 := by linear_combination hplus + hminus
  exact (mul_ne_zero two_ne_zero_p hy₂) htwice

theorem one_add_cross_ne_zero (P Q : Affine) : 1 + P.cross Q ≠ 0 := fun h =>
  cross_sq_ne_one P Q (by linear_combination (P.cross Q - 1) * h)

theorem one_sub_cross_ne_zero (P Q : Affine) : 1 - P.cross Q ≠ 0 := fun h =>
  cross_sq_ne_one P Q (by linear_combination (-P.cross Q - 1) * h)

def add (P Q : Affine) : Affine where
  x := (P.x * Q.y + P.y * Q.x) / (1 + P.cross Q)
  y := (P.y * Q.y + P.x * Q.x) / (1 - P.cross Q)
  onCurve := by
    have hplus := P.one_add_cross_ne_zero Q
    have hminus := P.one_sub_cross_ne_zero Q
    obtain ⟨x₁, y₁, h₁⟩ := P
    obtain ⟨x₂, y₂, h₂⟩ := Q
    generalize hcross : cross _ _ = ε at hplus hminus ⊢
    field_simp
    simp only [← hcross, cross]
    linear_combination
      ((y₂ ^ 2 - x₂ ^ 2) * (1 + (d * x₁ * x₂ * y₁ * y₂) ^ 2) -
        d * x₂ ^ 2 * y₂ ^ 2 * (y₁ ^ 2 - x₁ ^ 2 + 1 + d * x₁ ^ 2 * y₁ ^ 2)) * h₁ +
      ((1 + d * x₁ ^ 2 * y₁ ^ 2) * (1 + (d * x₁ * x₂ * y₁ * y₂) ^ 2) -
        d * x₁ ^ 2 * y₁ ^ 2 * (y₂ ^ 2 - x₂ ^ 2 + 1 + d * x₂ ^ 2 * y₂ ^ 2)) * h₂

instance : Add Affine :=
  ⟨add⟩

end Affine

namespace Point

structure Stands (a : Point) (P : Affine) : Prop where
  z_ne_zero : (a.z : ZMod p) ≠ 0
  x_eq : (a.x : ZMod p) = P.x * a.z
  y_eq : (a.y : ZMod p) = P.y * a.z
  t_eq : (a.t : ZMod p) = P.x * P.y * a.z

variable {a b : Point} {P Q : Affine}

theorem Stands.cast_add (h : a.Stands P) (h' : b.Stands Q) :
    ((a.add b).x : ZMod p) =
        (2 * a.z * b.z) ^ 2 * ((P.x * Q.y + P.y * Q.x) * (1 - P.cross Q)) ∧
      ((a.add b).y : ZMod p) =
        (2 * a.z * b.z) ^ 2 * ((1 + P.cross Q) * (P.y * Q.y + P.x * Q.x)) ∧
      ((a.add b).z : ZMod p) = (2 * a.z * b.z) ^ 2 * ((1 - P.cross Q) * (1 + P.cross Q)) ∧
      ((a.add b).t : ZMod p) =
        (2 * a.z * b.z) ^ 2 * ((P.x * Q.y + P.y * Q.x) * (P.y * Q.y + P.x * Q.x)) := by
  refine ⟨?_, ?_, ?_, ?_⟩ <;>
    simp only [Point.add, ZMod.natCast_mod, cast_sub, Nat.cast_mul, Nat.cast_add, Nat.cast_ofNat,
      h.x_eq, h'.x_eq, h.y_eq, h'.y_eq, h.t_eq, h'.t_eq, Affine.cross] <;>
    ring

theorem Stands.add (h : a.Stands P) (h' : b.Stands Q) : (a.add b).Stands (P + Q) := by
  have hplus := P.one_add_cross_ne_zero Q
  have hminus := P.one_sub_cross_ne_zero Q
  have hx : (P.x * Q.y + P.y * Q.x) = (P + Q).x * (1 + P.cross Q) :=
    (div_mul_cancel₀ _ hplus).symm
  have hy : (P.y * Q.y + P.x * Q.x) = (P + Q).y * (1 - P.cross Q) :=
    (div_mul_cancel₀ _ hminus).symm
  obtain ⟨hX, hY, hZ, hT⟩ := h.cast_add h'
  rw [hx] at hX
  rw [hy] at hY
  rw [hx, hy] at hT
  have hscale : (2 * a.z * b.z : ZMod p) ≠ 0 :=
    mul_ne_zero (mul_ne_zero two_ne_zero_p h.z_ne_zero) h'.z_ne_zero
  refine ⟨?_, ?_, ?_, ?_⟩
  · rw [hZ]
    exact mul_ne_zero (pow_ne_zero 2 hscale) (mul_ne_zero hminus hplus)
  · rw [hX, hZ]
    ring
  · rw [hY, hZ]
    ring
  · rw [hT, hZ]
    ring

instance : Zero Affine :=
  ⟨⟨0, 1, by ring⟩⟩

theorem stands_identity : identity.Stands 0 where
  z_ne_zero := by simp [identity]
  x_eq := by simp [identity, show (0 : Affine).x = 0 from rfl]
  y_eq := by simp [identity, show (0 : Affine).y = 1 from rfl]
  t_eq := by simp [identity, show (0 : Affine).x = 0 from rfl]

theorem Stands.mulWithin (h : a.Stands P) (bits k : Nat) (h' : b.Stands Q) :
    ∃ R, (mulWithin bits k a b).Stands R := by
  induction bits generalizing k a b P Q with
  | zero => exact ⟨Q, h'⟩
  | succ bits ih =>
      rw [Point.mulWithin]
      split
      · exact ih (h.add h) (k / 2) (h'.add h)
      · exact ih (h.add h) (k / 2) h'

theorem Stands.mul (h : a.Stands P) (k : Nat) : ∃ R, (a.mul k).Stands R :=
  h.mulWithin 256 k stands_identity

theorem stands_ofAffine {x y : Nat} (hx : (x : ZMod p) = P.x) (hy : (y : ZMod p) = P.y) :
    (ofAffine x y).Stands P where
  z_ne_zero := by simp [ofAffine]
  x_eq := by simp [ofAffine, hx]
  y_eq := by simp [ofAffine, hy]
  t_eq := by simp [ofAffine, hx, hy]

theorem stands_base : ∃ P, base.Stands P := by
  have hcheck : (base.y * base.y) % p =
      (1 + base.x * base.x + d * (base.x * base.x) * (base.y * base.y)) % p := by decide +kernel
  rw [cast_mod_eq] at hcheck
  push_cast at hcheck
  exact ⟨⟨base.x, base.y, by linear_combination hcheck⟩, stands_ofAffine rfl rfl⟩

def candidate (u v : Nat) : Nat :=
  let v3 := v * v % p * v % p
  let v7 := v3 * v3 % p * v % p
  u * v3 % p * powMod (u * v7 % p) ((p - 5) / 8) p % p

theorem evenRoot?_eq (u v : Nat) : evenRoot? u v =
    (if v * candidate u v % p * candidate u v % p = u % p then some (candidate u v)
      else if v * candidate u v % p * candidate u v % p = sub 0 u then
        some (candidate u v * rootOfMinusOne % p)
      else none).map fun r => if r % 2 = 1 then p - r else r :=
  rfl

theorem cast_candidate (u v : Nat) :
    (candidate u v : ZMod p) = u * v ^ 3 * (u * v ^ 7) ^ ((p - 5) / 8) := by
  have hthree : (v * v * v : ZMod p) = v ^ 3 := by ring
  have hseven : (v ^ 3 * v ^ 3 * v : ZMod p) = v ^ 7 := by ring
  simp only [candidate, ZMod.natCast_mod, Nat.cast_mul, cast_powMod, hthree, hseven]

theorem candidate_spec {u v : Nat} {x : ZMod p} (hv : (v : ZMod p) ≠ 0)
    (hu : (u : ZMod p) = x ^ 2 * v) :
    (v : ZMod p) * (candidate u v : ZMod p) ^ 2 = u ∨
      (v : ZMod p) * (candidate u v : ZMod p) ^ 2 = -u := by
  have hvalue : (v : ZMod p) * (candidate u v : ZMod p) ^ 2 = u * (x * v ^ 4) ^ (p / 2) := by
    have hexponent : p / 2 = 2 * (2 * ((p - 5) / 8) + 1) := by decide
    have hsquare : (x * v ^ 4) ^ 2 = (u : ZMod p) * v ^ 7 := by
      rw [hu]
      ring
    rw [cast_candidate, hexponent, pow_mul, hsquare]
    generalize (p - 5) / 8 = k
    ring
  by_cases hx : x = 0
  · left
    rw [hvalue, hu, hx, zero_pow two_ne_zero, zero_mul, zero_mul]
  · rw [hvalue]
    rcases ZMod.pow_div_two_eq_neg_one_or_one p (mul_ne_zero hx (pow_ne_zero 4 hv)) with h | h
    · exact .inl (by rw [h, mul_one])
    · exact .inr (by rw [h, mul_neg_one])

theorem evenRoot?_spec {u v : Nat} {x : ZMod p} (hv : (v : ZMod p) ≠ 0)
    (hu : (u : ZMod p) = x ^ 2 * v) :
    ∃ r, evenRoot? u v = some r ∧ r < p ∧ r % 2 = 0 ∧ (r : ZMod p) ^ 2 = x ^ 2 := by
  obtain ⟨r, hr, hlt, hsquare⟩ : ∃ r, evenRoot? u v = some (if r % 2 = 1 then p - r else r) ∧
      r < p ∧ (r : ZMod p) ^ 2 = x ^ 2 := by
    have hcheck : v * candidate u v % p * candidate u v % p = u % p ↔
        (v : ZMod p) * (candidate u v : ZMod p) ^ 2 = u := by
      rw [cast_mod_eq, Nat.cast_mul, ZMod.natCast_mod, Nat.cast_mul, mul_assoc, ← pow_two]
    have hcheck' : v * candidate u v % p * candidate u v % p = sub 0 u ↔
        (v : ZMod p) * (candidate u v : ZMod p) ^ 2 = -u := by
      rw [← cast_inj (Nat.mod_lt _ prime_p.pos) (sub_lt 0 u), cast_sub,
        ZMod.natCast_mod, Nat.cast_mul, ZMod.natCast_mod, Nat.cast_mul, Nat.cast_zero, zero_sub,
        mul_assoc, ← pow_two]
    rw [evenRoot?_eq]
    simp only [hcheck, hcheck']
    split
    next hsame =>
      refine ⟨_, rfl, Nat.mod_lt _ prime_p.pos, mul_left_cancel₀ hv ?_⟩
      rw [hsame, hu, mul_comm]
    next hother =>
      have hopposite := (candidate_spec hv hu).resolve_left hother
      rw [if_pos hopposite]
      refine ⟨_, rfl, Nat.mod_lt _ prime_p.pos, mul_left_cancel₀ hv ?_⟩
      rw [ZMod.natCast_mod, Nat.cast_mul, mul_pow, rootOfMinusOne_sq, mul_neg_one, mul_neg,
        hopposite, neg_neg, hu, mul_comm]
  have hodd : p % 2 = 1 := by decide
  refine ⟨_, hr, ?_, ?_, ?_⟩
  · split <;> omega
  · split <;> omega
  · split
    · rw [Nat.cast_sub hlt.le, ZMod.natCast_self, zero_sub, neg_sq, hsquare]
    · exact hsquare

theorem choose_root {r : Nat} {x : ZMod p} (hlt : r < p) (heven : r % 2 = 0)
    (h : (r : ZMod p) ^ 2 = x ^ 2) : (if x.val % 2 = 1 then sub 0 r else r) = x.val := by
  rcases sq_eq_sq_iff_eq_or_eq_neg.mp h with rfl | hopposite
  · rw [ZMod.val_natCast_of_lt hlt, if_neg (by omega)]
  · have hodd : p % 2 = 1 := by decide
    have hval : x.val = sub 0 r := by
      rw [show x = ((sub 0 r : Nat) : ZMod p) by
        rw [cast_sub, Nat.cast_zero, zero_sub, hopposite, neg_neg]]
      exact ZMod.val_natCast_of_lt (sub_lt 0 r)
    rw [hval]
    rcases Nat.eq_zero_or_pos r with rfl | hpos
    · simp [sub]
    · have hdifference : sub 0 r = p - r := by
        rw [sub, Nat.mod_eq_of_lt hlt, zero_add]
        exact Nat.mod_eq_of_lt (by omega)
      rw [hdifference, if_pos (by omega)]

theorem compress_eq (h : a.Stands P) :
    a.compress = Bytes.ofNatLittle 32 (P.y.val + Nat.pow 2 255 * (P.x.val % 2)) := by
  have hquotient {n : Nat} {c : ZMod p} (hn : (n : ZMod p) = c * a.z) :
      n * powMod a.z (p - 2) p % p = c.val := by
    rw [show c = ((n * powMod a.z (p - 2) p % p : Nat) : ZMod p) by
      rw [ZMod.natCast_mod, Nat.cast_mul, cast_inverse h.z_ne_zero, hn,
        mul_inv_cancel_right₀ h.z_ne_zero]]
    exact (ZMod.val_natCast_of_lt (Nat.mod_lt _ prime_p.pos)).symm
  rw [compress]
  simp only [hquotient h.x_eq, hquotient h.y_eq]

theorem length_compress (a : Point) : a.compress.length = 32 :=
  Bytes.length_ofNatLittle _ _

theorem one_add_d_mul_sq_ne_zero (y : ZMod p) : d * y ^ 2 + 1 ≠ 0 := by
  intro hzero
  have hsquare : (rootOfMinusOne : ZMod p) ^ 2 = d * y ^ 2 := by
    rw [rootOfMinusOne_sq]
    linear_combination -hzero
  rw [eq_zero_of_sq_eq hsquare] at hzero
  simp at hzero

theorem decompress?_compress (h : a.Stands P) :
    decompress? a.compress = some (ofAffine P.x.val P.y.val) := by
  have hy : P.y.val < p := ZMod.val_lt P.y
  have hp : p < Nat.pow 2 255 := by decide
  have hbit : P.x.val % 2 < 2 := Nat.mod_lt _ (by decide)
  have hnumber : P.y.val + Nat.pow 2 255 * (P.x.val % 2) < 256 ^ 32 := by
    have hsize : Nat.pow 2 255 * 2 = 256 ^ 32 := by decide
    have hproduct : Nat.pow 2 255 * (P.x.val % 2) ≤ Nat.pow 2 255 * 1 :=
      Nat.mul_le_mul_left _ (by omega)
    omega
  have hordinate : (P.y.val + Nat.pow 2 255 * (P.x.val % 2)) % Nat.pow 2 255 % p = P.y.val := by
    rw [Nat.add_mul_mod_self_left, Nat.mod_eq_of_lt (hy.trans hp), Nat.mod_eq_of_lt hy]
  have hsign : Nat.pow 2 255 ≤ P.y.val + Nat.pow 2 255 * (P.x.val % 2) ↔ P.x.val % 2 = 1 := by
    rcases Nat.mod_two_eq_zero_or_one P.x.val with hzero | hone
    · rw [hzero]
      omega
    · rw [hone]
      omega
  have hv : (((d * (P.y.val * P.y.val % p) + 1) % p : Nat) : ZMod p) = d * P.y ^ 2 + 1 := by
    simp [pow_two]
  have hu : ((sub (P.y.val * P.y.val % p) 1 : Nat) : ZMod p) =
      P.x ^ 2 * ((d * (P.y.val * P.y.val % p) + 1) % p : Nat) := by
    rw [hv, cast_sub]
    simp only [ZMod.natCast_mod, Nat.cast_mul, ZMod.natCast_zmod_val, Nat.cast_one]
    linear_combination P.onCurve
  obtain ⟨r, hr, hlt, heven, hsquare⟩ :=
    evenRoot?_spec (hv ▸ one_add_d_mul_sq_ne_zero P.y) hu
  rw [compress_eq h, decompress?, Bytes.toNatLittle_ofNatLittle hnumber]
  simp only [hordinate, hr, hsign, choose_root hlt heven hsquare, Option.map_some]

end Point

theorem length_publicKey (seed : Bytes) : (publicKey seed).length = 32 :=
  Point.length_compress _

theorem decompress?_publicKey (seed : Bytes) :
    ∃ P q, (Point.base.mul (expand seed).1).Stands P ∧
      Point.decompress? (publicKey seed) = some q ∧ q.Stands P := by
  obtain ⟨B, hbase⟩ := Point.stands_base
  obtain ⟨P, hmul⟩ := hbase.mul (expand seed).1
  exact ⟨P, _, hmul, Point.decompress?_compress hmul,
    Point.stands_ofAffine (ZMod.natCast_zmod_val P.x) (ZMod.natCast_zmod_val P.y)⟩

end JoseTokens.Ed25519
