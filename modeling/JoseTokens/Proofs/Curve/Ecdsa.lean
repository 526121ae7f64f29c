import JoseTokens.Crypto.Signing
import JoseTokens.Proofs.Curve.Order
import JoseTokens.Proofs.Key.Primitive
import JoseTokens.Proofs.Number.Octets
import JoseTokens.Proofs.Outcome
import Mathlib.Algebra.Module.ZMod

namespace JoseTokens.Secp256k1

open Number

noncomputable instance : Module (ZMod n) Group :=
  AddCommGroup.zmodModule nsmul_eq_zero

noncomputable def combined (Q : Group) (z r s : Nat) : Group :=
  ((z : ZMod n) / s) • G + ((r : ZMod n) / s) • Q

def Fits (Q : Group) (z r s : Nat) : Prop :=
  ∃ point, IsAt point (combined Q z r s) ∧ point.x % n = r

theorem combined_neg {Q : Group} {z r s : Nat} (hs : s ≤ n) :
    combined Q z r (n - s) = -combined Q z r s := by
  have hcast : ((n - s : Nat) : ZMod n) = -s := by
    rw [Nat.cast_sub hs, ZMod.natCast_self, zero_sub]
  rw [combined, combined, hcast, div_neg, div_neg, neg_smul, neg_smul, neg_add]

theorem IsAt.neg {point : Point} {P : Group} (h : IsAt point P) :
    IsAt ⟨point.x, (p - point.y) % p⟩ (-P) := by
  obtain ⟨hx, hy, hnonsingular, rfl⟩ := h
  have hcast : (((p - point.y) % p : Nat) : ZMod p) = curve.toAffine.negY point.x point.y := by
    rw [negY_eq, ZMod.natCast_mod, Nat.cast_sub hy.le, ZMod.natCast_self, zero_sub]
  refine ⟨hx, Nat.mod_lt _ prime_p.pos, ?_⟩
  rw [hcast]
  exact ⟨_, WeierstrassCurve.Affine.Point.neg_some hnonsingular⟩

theorem Fits.flip {Q : Group} {z r s : Nat} (hs : s ≤ n) (h : Fits Q z r s) :
    Fits Q z r (n - s) := by
  obtain ⟨point, hpoint, hx⟩ := h
  refine ⟨⟨point.x, (p - point.y) % p⟩, ?_, hx⟩
  rw [combined_neg hs]
  exact hpoint.neg

theorem fits_flip_iff {Q : Group} {z r s : Nat} (hs : s ≤ n) :
    Fits Q z r (n - s) ↔ Fits Q z r s := by
  constructor
  · intro h
    have hback := h.flip (Nat.sub_le n s)
    rwa [Nat.sub_sub_self hs] at hback
  · exact Fits.flip hs

theorem fits_lowHalf {Q : Group} {z r s : Nat} (hs : s ≤ n) :
    Fits Q z r (lowHalf s) ↔ Fits Q z r s := by
  rw [lowHalf]
  split
  · exact fits_flip_iff hs
  · rfl

theorem smul_mulInverse {s : Nat} (hs : (s : ZMod n) ≠ 0) (k : Nat) (P : Group) :
    (k * powMod s (n - 2) n % n) • P = ((k : ZMod n) / s) • P := by
  rw [← Nat.cast_smul_eq_nsmul (ZMod n), ZMod.natCast_mod, Nat.cast_mul, cast_inverse hs,
    div_eq_mul_inv]

theorem recovered?_eq_some_iff {q : Point} {Q : Group} (h : IsAt q Q) {z r s : Nat}
    (hs : (s : ZMod n) ≠ 0) {point : Point} :
    recovered? q z r s = some point ↔ IsAt point (combined Q z r s) := by
  have hbound (k : Nat) : k % n < 2 ^ 256 := (Nat.mod_lt k prime_n.pos).trans (by decide)
  have hsum := (Jacobian.stands_generator.mul (hbound (z * powMod s (n - 2) n))).add
    ((Jacobian.stands_ofPoint h).mul (hbound (r * powMod s (n - 2) n)))
  rw [smul_mulInverse hs, smul_mulInverse hs] at hsum
  exact hsum.toPoint?_eq_some_iff

theorem lowHalf_bounds {s : Nat} (hpos : 0 < s) (hs : s < n) : 0 < lowHalf s ∧ lowHalf s < n := by
  rw [lowHalf]
  split <;> omega

structure InRange (signature : Bytes) (r s : Nat) : Prop where
  length : signature.length = 64
  r_eq : Bytes.toNat (signature.take 32) = r
  s_eq : Bytes.toNat (signature.drop 32) = s
  r_pos : 0 < r
  r_lt : r < n
  s_pos : 0 < s
  s_lt : s < n

theorem verify_eq_true_iff {q : Point} {signature data : Bytes} :
    verify q signature data = true ↔ ∃ r s, InRange signature r s ∧
      ∃ point, recovered? q (messageNumber data) r (lowHalf s) = some point ∧ point.x % n = r := by
  rw [verify]
  split
  next hform =>
    obtain ⟨hlength, hr0, hrn, hs0, hsn⟩ := hform
    constructor
    · intro h
      split at h
      next point hpoint =>
        exact ⟨_, _, ⟨hlength, rfl, rfl, hr0, hrn, hs0, hsn⟩, point, hpoint, beq_iff_eq.mp h⟩
      · cases h
    · rintro ⟨_, _, ⟨-, rfl, rfl, -, -, -, -⟩, point, hpoint, hx⟩
      rw [hpoint]
      exact beq_iff_eq.mpr hx
  next hform =>
    constructor
    · intro h
      cases h
    · rintro ⟨_, _, ⟨hlength, rfl, rfl, hr0, hrn, hs0, hsn⟩, -⟩
      exact absurd ⟨hlength, hr0, hrn, hs0, hsn⟩ hform

theorem verify_iff {q : Point} {Q : Group} (h : IsAt q Q) {signature data : Bytes} :
    verify q signature data = true ↔
      ∃ r s, InRange signature r s ∧ Fits Q (messageNumber data) r s := by
  rw [verify_eq_true_iff]
  refine exists_congr fun r => exists_congr fun s => and_congr_right fun hrange => ?_
  have hlow := lowHalf_bounds hrange.s_pos hrange.s_lt
  have hne : (lowHalf s : ZMod n) ≠ 0 := (cast_eq_zero hlow.2).not.mpr hlow.1.ne'
  rw [← fits_lowHalf hrange.s_lt.le, Fits]
  simp only [recovered?_eq_some_iff h hne]

theorem inRange_append_iff {r : Bytes} {s r' s' : Nat} (hr : r.length = 32) (hs : s < n) :
    InRange (r ++ Bytes.ofNat 32 s) r' s' ↔
      (0 < Bytes.toNat r ∧ Bytes.toNat r < n ∧ 0 < s) ∧ Bytes.toNat r = r' ∧ s = s' := by
  have htake : (r ++ Bytes.ofNat 32 s).take 32 = r := List.take_left' hr
  have hdrop : (r ++ Bytes.ofNat 32 s).drop 32 = Bytes.ofNat 32 s := List.drop_left' hr
  have hwidth : s < 256 ^ 32 := hs.trans (by decide)
  constructor
  · rintro ⟨-, hr', hs', hr0, hrn, hs0, -⟩
    rw [htake] at hr'
    rw [hdrop, Bytes.toNat_ofNat hwidth] at hs'
    subst hr' hs'
    exact ⟨⟨hr0, hrn, hs0⟩, rfl, rfl⟩
  · rintro ⟨⟨hr0, hrn, hs0⟩, rfl, rfl⟩
    refine ⟨?_, by rw [htake], by rw [hdrop, Bytes.toNat_ofNat hwidth], hr0, hrn, hs0, hs⟩
    rw [List.length_append, hr, Bytes.length_ofNat]

theorem verify_append_iff {q : Point} {Q : Group} (h : IsAt q Q) {r data : Bytes} {s : Nat}
    (hr : r.length = 32) (hs : s < n) :
    verify q (r ++ Bytes.ofNat 32 s) data = true ↔
      (0 < Bytes.toNat r ∧ Bytes.toNat r < n ∧ 0 < s) ∧
        Fits Q (messageNumber data) (Bytes.toNat r) s := by
  simp only [verify_iff h, inRange_append_iff hr hs]
  constructor
  · rintro ⟨_, _, ⟨hrange, rfl, rfl⟩, hfits⟩
    exact ⟨hrange, hfits⟩
  · rintro ⟨hrange, hfits⟩
    exact ⟨_, _, ⟨hrange, rfl, rfl⟩, hfits⟩

theorem Stream.next?_bounds {fuel k : Nat} {stream : Stream} (h : stream.next? fuel = some k) :
    0 < k ∧ k < n := by
  induction fuel generalizing stream with
  | zero => cases h
  | succ fuel ih =>
      rw [next?] at h
      split at h
      next hbounds => exact Option.some.inj h ▸ hbounds
      · exact ih h

theorem combined_of_signed {d k z r : Nat} (hk : (k : ZMod n) ≠ 0) {s : Nat}
    (hs : (s : ZMod n) = (k : ZMod n)⁻¹ * (z + r * d)) (hne : (s : ZMod n) ≠ 0) :
    combined (d • G) z r s = k • G := by
  have hquotient : (z : ZMod n) / s + r / s * d = k := by
    have hsum : (z : ZMod n) + r * d = k * s := by
      rw [hs, mul_inv_cancel_left₀ hk]
    rw [div_mul_eq_mul_div, ← add_div, hsum, mul_div_cancel_right₀ _ hne]
  rw [combined, ← Nat.cast_smul_eq_nsmul (ZMod n) d, ← Nat.cast_smul_eq_nsmul (ZMod n) k, smul_smul,
    ← add_smul, hquotient]

theorem fits_of_signed {d k z : Nat} {point : Point} (hkpos : 0 < k) (hk : k < n)
    (hpoint : IsAt point (k • G))
    (hs : powMod k (n - 2) n * (z + point.x % n * d) % n ≠ 0) :
    Fits (d • G) z (point.x % n) (powMod k (n - 2) n * (z + point.x % n * d) % n) := by
  have hlt : powMod k (n - 2) n * (z + point.x % n * d) % n < n := Nat.mod_lt _ prime_n.pos
  have hkne : (k : ZMod n) ≠ 0 := (cast_eq_zero hk).not.mpr hkpos.ne'
  refine ⟨point, ?_, rfl⟩
  rw [combined_of_signed hkne ?_ ((cast_eq_zero hlt).not.mpr hs)]
  · exact hpoint
  · rw [ZMod.natCast_mod, Nat.cast_mul, cast_inverse hkne, Nat.cast_add, Nat.cast_mul]

theorem verify_of_sign? {d : Nat} {q : Point} {signature data : Bytes}
    (hsign : sign? d data = some signature) (hq : IsAt q (d • G)) :
    verify q signature data = true := by
  simp only [sign?, Option.bind_eq_bind, Option.bind_eq_some_iff] at hsign
  obtain ⟨k, hk, point, hpoint, hsign⟩ := hsign
  obtain ⟨hkpos, hkn⟩ := Stream.next?_bounds hk
  obtain ⟨found, hfound, hisAt⟩ := publicPoint?_spec hkpos hkn
  obtain rfl : found = point := Option.some.inj (hfound.symm.trans hpoint)
  split at hsign
  · cases hsign
  next hne =>
    obtain ⟨hr, hlow⟩ := not_or.mp hne
    obtain rfl := Option.some.inj hsign
    have hrn : found.x % n < n := Nat.mod_lt _ prime_n.pos
    have hwidth : found.x % n < 256 ^ 32 := hrn.trans (by decide)
    generalize hs : powMod k (n - 2) n * (messageNumber data + found.x % n * d) % n = s at hlow ⊢
    have hsn : s < n := hs ▸ Nat.mod_lt _ prime_n.pos
    have hspos : 0 < s := by
      rw [lowHalf] at hlow
      split at hlow <;> omega
    obtain ⟨hlowpos, hlowlt⟩ := lowHalf_bounds hspos hsn
    rw [verify_append_iff hq (Bytes.length_ofNat 32 _) hlowlt, Bytes.toNat_ofNat hwidth,
      fits_lowHalf hsn.le]
    refine ⟨⟨Nat.pos_of_ne_zero hr, hrn, hlowpos⟩, ?_⟩
    have hfits := fits_of_signed (z := messageNumber data) (d := d) hkpos hkn hisAt
      (by rw [hs]; exact hspos.ne')
    rwa [hs] at hfits

end JoseTokens.Secp256k1

namespace JoseTokens.Algorithm

open Secp256k1

variable {key : Jwk} {shown : EcPublic} {d : Option Bytes}

theorem sign_ecdsa {c : Curve} {d data signature : Bytes} {k : Nat}
    (h : key.material = .ec shown (some d)) (hk : shown.scalar d = .ok k)
    (hsign : (ecdsa c .sha256).sign key data = .ok signature) :
    Secp256k1.sign? k data = some signature := by
  simp only [sign, h, ne_eq, not_true_eq_false, if_false] at hsign
  obtain ⟨found, hfound, hsign⟩ := bind_eq_ok hsign
  obtain rfl := Except.ok.inj (hk.symm.trans hfound)
  generalize Secp256k1.sign? k data = made at hsign ⊢
  cases made with
  | none => cases hsign
  | some made =>
      cases hsign
      rfl

theorem verify_ecdsa {c : Curve} {hash : HashName} (h : key.material = .ec shown d)
    (signature data : Bytes) : (ecdsa c hash).verify key signature data =
      shown.point.map fun q => Secp256k1.verify q signature data := by
  simp only [verify, h]
  cases shown.point <;> rfl

theorem exists_isAt_of_point {q : Point} (h : shown.point = .ok q) : ∃ Q, IsAt q Q := by
  obtain ⟨-, -, hpoint⟩ := EcPublic.point_eq_ok_iff.mp h
  obtain ⟨hcurve, rfl⟩ := point?_eq_some_iff.mp hpoint
  exact onCurve_iff_isAt.mp hcurve

theorem verify_flipped (c : Curve) (hash : HashName) (key : Jwk) {r : Bytes} {s : Nat}
    (data : Bytes) (hr : r.length = 32) (hpos : 0 < s) (hs : s < n) :
    (ecdsa c hash).verify key (r ++ Bytes.ofNat 32 s) data =
        (ecdsa c hash).verify key (r ++ Bytes.ofNat 32 (n - s)) data ∧
      ∀ shown d q, key.material = .ec shown d → shown.point = .ok q → ∃ Q, IsAt q Q ∧
        ((ecdsa c hash).verify key (r ++ Bytes.ofNat 32 s) data = .ok true ↔
          (0 < Bytes.toNat r ∧ Bytes.toNat r < n) ∧
            Fits Q (messageNumber data) (Bytes.toNat r) s) := by
  have hflipped : n - s < n := Nat.sub_lt prime_n.pos hpos
  have hflippedpos : 0 < n - s := Nat.sub_pos_of_lt hs
  constructor
  · cases hmaterial : key.material with
    | ec shown d =>
        rw [verify_ecdsa hmaterial, verify_ecdsa hmaterial]
        cases hq : shown.point with
        | error e => rfl
        | ok q =>
            obtain ⟨Q, hQ⟩ := exists_isAt_of_point hq
            refine congrArg Except.ok (Bool.eq_iff_iff.mpr ?_)
            rw [verify_append_iff hQ hr hs, verify_append_iff hQ hr hflipped, fits_flip_iff hs.le]
            simp only [hpos, hflippedpos]
    | _ => simp only [verify, hmaterial]
  · intro shown d q hmaterial hq
    obtain ⟨Q, hQ⟩ := exists_isAt_of_point hq
    refine ⟨Q, hQ, ?_⟩
    rw [verify_ecdsa hmaterial, hq, Except.map, Except.ok.injEq, verify_append_iff hQ hr hs,
      and_assoc, and_assoc, and_assoc]
    simp only [hpos, true_and]

def unitKey : Jwk where
  material := .ec
    ⟨Curve.secp256k1.text, Bytes.ofNat 32 generator.x, Bytes.ofNat 32 generator.y⟩ none

theorem verify_flipped_signed :
    ∃ r s, r.length = 32 ∧ 0 < s ∧ s < n ∧
      (ecdsa .secp256k1 .sha256).verify unitKey (r ++ Bytes.ofNat 32 s)
        "hello world".toUTF8.toList = .ok true ∧
      (ecdsa .secp256k1 .sha256).verify unitKey (r ++ Bytes.ofNat 32 (n - s))
        "hello world".toUTF8.toList = .ok true := by
  let r := Bytes.ofNat 32 0x50abcc1d060f40ca0049124dadc0977ecca7a0ed05a32a1dae0a5178cf8ca288
  let s := 0x27f4d877497750ce5079f48a1beb4aa590110f165de67cd2c439fd2a3d91927e
  have hr : r.length = 32 := Bytes.length_ofNat 32 _
  have hpos : 0 < s := by decide
  have hs : s < n := by decide
  have hverify : (ecdsa .secp256k1 .sha256).verify unitKey (r ++ Bytes.ofNat 32 s)
      "hello world".toUTF8.toList = .ok true := by
    decide +kernel
  have hflipped := verify_flipped .secp256k1 .sha256 unitKey "hello world".toUTF8.toList hr hpos hs
  exact ⟨r, s, hr, hpos, hs, hverify, hflipped.1.symm.trans hverify⟩

end JoseTokens.Algorithm
