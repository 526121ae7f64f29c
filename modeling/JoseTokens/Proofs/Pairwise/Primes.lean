import JoseTokens.Pairwise.Session
import JoseTokens.Proofs.Number.Modular
import JoseTokens.Proofs.Outcome
import JoseTokens.Proofs.Rsa.Key

namespace JoseTokens.Pairwise

structure Shaped (bits n : Nat) : Prop where
  length : Rsa.bitLength n = bits
  highest : n.testBit (bits - 1) = true
  second : n.testBit (bits - 2) = true
  odd : n % 2 = 1

structure InLastQuarter (k n : Nat) : Prop where
  low : 3 * 2 ^ k ≤ n
  high : n < 4 * 2 ^ k

theorem InLastQuarter.shaped {k n : Nat} (h : InLastQuarter k n) (hodd : n % 2 = 1) :
    Shaped (k + 2) n := by
  obtain ⟨hlow, hhigh⟩ := h
  have hdouble : 2 ^ (k + 1) = 2 * 2 ^ k := by rw [Nat.pow_succ, Nat.mul_comm]
  have hfour : 2 ^ (k + 1 + 1) = 4 * 2 ^ k := by rw [Nat.pow_succ, hdouble]; omega
  have hhighest : n / 2 ^ (k + 1) = 1 := Nat.div_eq_of_lt_le (by omega) (by omega)
  have hsecond : n / 2 ^ k = 3 := Nat.div_eq_of_lt_le (by omega) (by omega)
  refine ⟨Rsa.bitLength_eq (by omega) (by omega), ?_, ?_, hodd⟩
  · rw [Nat.add_sub_assoc (by decide), Nat.testBit_eq_decide_div_mod_eq, hhighest]
    rfl
  · rw [Nat.add_sub_cancel, Nat.testBit_eq_decide_div_mod_eq, hsecond]
    rfl

theorem InLastQuarter.bitLength_mul {k p q : Nat} (hp : InLastQuarter k p)
    (hq : InLastQuarter k q) : Rsa.bitLength (p * q) = 2 * (k + 2) := by
  have hlow : 3 * 2 ^ k * (3 * 2 ^ k) ≤ p * q := Nat.mul_le_mul hp.low hq.low
  have hhigh : p * q < 4 * 2 ^ k * (4 * 2 ^ k) := Nat.mul_lt_mul'' hp.high hq.high
  have hsquare : 2 ^ (2 * k) = 2 ^ k * 2 ^ k := by rw [Nat.two_mul, Nat.pow_add]
  have hhalf : 2 ^ (2 * k + 3) = 8 * (2 ^ k * 2 ^ k) := by rw [Nat.pow_add, hsquare]; omega
  have hwhole : 2 ^ (2 * k + 3 + 1) = 16 * (2 ^ k * 2 ^ k) := by rw [Nat.pow_succ, hhalf]; omega
  have hnine : 3 * 2 ^ k * (3 * 2 ^ k) = 9 * (2 ^ k * 2 ^ k) := by ring
  have hsixteen : 4 * 2 ^ k * (4 * 2 ^ k) = 16 * (2 ^ k * 2 ^ k) := by ring
  exact Rsa.bitLength_eq (k := 2 * k + 3) (by omega) (by omega)

theorem shapePrime_spec {size k : Nat} (hsize : 8 * size = k + 3) (n : Nat) :
    InLastQuarter (k + 1) (shapePrime size n) ∧ shapePrime size n % 2 = 1 := by
  have hexponent : 8 * size - 2 = k + 1 := by omega
  have heven : 2 ^ (k + 1) = 2 * 2 ^ k := by rw [Nat.pow_succ, Nat.mul_comm]
  have hrest : n % 2 ^ (k + 1) < 2 ^ (k + 1) := Nat.mod_lt _ (Nat.two_pow_pos _)
  have hshape : shapePrime size n = n % 2 ^ (k + 1) + 3 * 2 ^ (k + 1) -
      (n % 2 ^ (k + 1) + 3 * 2 ^ (k + 1)) % 2 + 1 := by
    rw [shapePrime, hexponent]
    rfl
  rw [hshape]
  exact ⟨⟨by omega, by omega⟩, by omega⟩

variable {seed : Bytes} {index : UInt8} {size : Nat} {other : Option Nat}

theorem primeFrom?_some {fuel counter n : Nat}
    (h : primeFrom? seed index size other fuel counter = some n) :
    ∃ i, n = primeCandidate seed index i size ∧ isUsable other n = true := by
  induction fuel generalizing counter with
  | zero => cases h
  | succ fuel ih =>
      simp only [primeFrom?] at h
      split at h
      next husable =>
        cases h
        exact ⟨counter, rfl, husable⟩
      · exact ih h

theorem isUsable_iff {n : Nat} : isUsable other n = true ↔ some n ≠ other ∧
    Number.isProbablePrime n = true ∧ ¬ KeyRequest.publicExponent ∣ n - 1 := by
  simp only [isUsable, Bool.and_eq_true, bne_iff_ne, and_assoc, Nat.dvd_iff_mod_eq_zero]

structure Found (k : Nat) (other : Option Nat) (n : Nat) : Prop where
  quarter : InLastQuarter k n
  odd : n % 2 = 1
  another : some n ≠ other
  coprime : ¬ KeyRequest.publicExponent ∣ n - 1

theorem prime?_some {k n : Nat} (hsize : 8 * size = k + 3)
    (h : prime? seed index size other = some n) : Found (k + 1) other n := by
  obtain ⟨i, hcandidate, husable⟩ := primeFrom?_some h
  obtain ⟨hother, -, hexponent⟩ := isUsable_iff.mp husable
  obtain ⟨hquarter, hodd⟩ := shapePrime_spec hsize
    (Bytes.toNat ((candidateStream seed index i size).take size))
  rw [← primeCandidate, ← hcandidate] at hquarter hodd
  exact ⟨hquarter, hodd, hother, hexponent⟩

theorem rsaKey_ok {bits : Nat} {key : Rsa.PrivateKey} (h : rsaKey seed bits = .ok key) :
    ∃ p q d, prime? seed 0 (bits / 16) none = some p ∧
      prime? seed 1 (bits / 16) (some p) = some q ∧
      key = ⟨p * q, KeyRequest.publicExponent, d, [p, q]⟩ ∧
      d * KeyRequest.publicExponent % (p - 1) = 1 ∧
      d * KeyRequest.publicExponent % (q - 1) = 1 := by
  simp only [rsaKey] at h
  split at h
  · cases h
  next p hp =>
    split at h
    · cases h
    next q hq =>
      split at h
      next made hmade =>
        cases h
        obtain ⟨d, rfl, hexponents⟩ := Rsa.ofPrimes_ok hmade
        exact ⟨p, q, d, hp, hq, rfl, hexponents⟩
      · cases h

structure Sized (bits : Nat) (shown : RsaPublic) (secret : RsaSecret) : Prop where
  left : Shaped (bits / 2) (Bytes.toNat secret.p)
  right : Shaped (bits / 2) (Bytes.toNat secret.q)
  distinct : Bytes.toNat secret.p ≠ Bytes.toNat secret.q
  modulus : Bytes.toNat shown.n = Bytes.toNat secret.p * Bytes.toNat secret.q
  length : Rsa.bitLength (Bytes.toNat shown.n) = bits
  octets : 8 * shown.n.length = bits
  noZero : shown.n.head? ≠ some 0
  exponent : Bytes.toNat shown.e = 65537
  leftCoprime : ¬ 65537 ∣ Bytes.toNat secret.p - 1
  rightCoprime : ¬ 65537 ∣ Bytes.toNat secret.q - 1
  leftInverse : Bytes.toNat secret.d * Bytes.toNat shown.e % (Bytes.toNat secret.p - 1) = 1
  rightInverse : Bytes.toNat secret.d * Bytes.toNat shown.e % (Bytes.toNat secret.q - 1) = 1
  leftPart : Bytes.toNat secret.dp = Bytes.toNat secret.d % (Bytes.toNat secret.p - 1)
  rightPart : Bytes.toNat secret.dq = Bytes.toNat secret.d % (Bytes.toNat secret.q - 1)
  coefficient : Bytes.toNat secret.qi * Bytes.toNat secret.q % Bytes.toNat secret.p = 1

theorem ofRsa_ok {n e d p q : Nat} {material : Material} (hp : 1 < p)
    (h : Material.ofRsa ⟨n, e, d, [p, q]⟩ = .ok material) : ∃ qi, qi * q % p = 1 ∧
      material = .rsa ⟨Bytes.minimal n, Bytes.minimal e⟩ (some ⟨Bytes.minimal d, Bytes.minimal p,
        Bytes.minimal q, Bytes.minimal (d % (p - 1)), Bytes.minimal (d % (q - 1)),
        Bytes.minimal qi⟩) := by
  simp only [Material.ofRsa] at h
  split at h
  next qi hqi =>
    cases h
    have hone : q * qi % p = 1 % p := Number.inverse?_spec hp hqi
    rw [Nat.mul_comm, Nat.mod_eq_of_lt hp] at hone
    exact ⟨qi, hone, rfl⟩
  · cases h

theorem sized_of_ofRsa {bits k d p q : Nat} {material : Material} (hbits : bits = 2 * (k + 2))
    (hoctets : 16 ∣ bits) (hp : Found k none p) (hq : Found k (some p) q)
    (hleft : d * KeyRequest.publicExponent % (p - 1) = 1)
    (hright : d * KeyRequest.publicExponent % (q - 1) = 1)
    (h : Material.ofRsa ⟨p * q, KeyRequest.publicExponent, d, [p, q]⟩ = .ok material) :
    ∃ shown secret, material = .rsa shown (some secret) ∧ Sized bits shown secret := by
  have hone : 1 < p := by
    have := Nat.two_pow_pos k
    have := hp.quarter.low
    omega
  obtain ⟨qi, hqi, rfl⟩ := ofRsa_ok hone h
  have hhalf : bits / 2 = k + 2 := by omega
  have hlength : Rsa.bitLength (p * q) = bits :=
    (hp.quarter.bitLength_mul hq.quarter).trans hbits.symm
  have hzero : p * q ≠ 0 := Nat.mul_ne_zero (by have := hp.odd; omega) (by have := hq.odd; omega)
  have hwhole : (Bytes.minimal (p * q)).length = bits / 8 :=
    Rsa.length_minimal_of_bitLength hzero (by omega)
  refine ⟨_, _, rfl, ?_⟩
  constructor <;> simp only [Bytes.toNat_minimal]
  case left => exact hhalf ▸ hp.quarter.shaped hp.odd
  case right => exact hhalf ▸ hq.quarter.shaped hq.odd
  case distinct => exact fun heq => hq.another (congrArg some heq.symm)
  case length => exact hlength
  case octets => omega
  case noZero => exact Bytes.head?_minimal hzero
  case exponent => rfl
  case leftCoprime => exact hp.coprime
  case rightCoprime => exact hq.coprime
  case leftInverse => exact hleft
  case rightInverse => exact hright
  case coefficient => exact hqi

theorem ofRequest_rsa {algorithm : String} {bits : Option Nat} {target : Target}
    (h : Target.ofRequest (.rsa algorithm bits) = .ok target) :
    target = .rsa algorithm (bits.getD KeyRequest.defaultModulusBits) ∧
      512 ≤ bits.getD KeyRequest.defaultModulusBits ∧
      16 ∣ bits.getD KeyRequest.defaultModulusBits := by
  have hleast : minModulusBits = 512 := rfl
  simp only [Target.ofRequest] at h
  split at h
  · cases h
  · cases h
    exact ⟨rfl, by omega, by omega⟩

theorem Target.derive_rsa (seed : Bytes) (algorithm : String) (bits : Nat) :
    Target.derive seed (.rsa algorithm bits) = (rsaKey seed bits).bind fun key =>
      (Material.ofRsa key).bind fun material => .ok (Jwk.withAlg { material } algorithm) :=
  rfl

theorem derive_rsa_sized {s : Session} {algorithm persona peer : String} {bits : Option Nat}
    {key : Jwk} (h : (s.derive (.rsa algorithm bits) persona peer).1 = .ok key) :
    ∃ shown secret, key.material = .rsa shown (some secret) ∧
      Sized (bits.getD KeyRequest.defaultModulusBits) shown secret := by
  rw [Session.derive] at h
  split at h
  · cases h
  next target htarget =>
    obtain ⟨rfl, hleast, hwhole⟩ := ofRequest_rsa htarget
    generalize bits.getD KeyRequest.defaultModulusBits = length at h hleast hwhole ⊢
    change Target.derive (peerSeed (s.masterKey persona).1 peer) (.rsa algorithm length) =
      .ok key at h
    rw [Target.derive_rsa] at h
    obtain ⟨made, hmade, h⟩ := bind_eq_ok h
    obtain ⟨material, hmaterial, h⟩ := bind_eq_ok h
    cases h
    obtain ⟨p, q, d, hp, hq, rfl, hleft, hright⟩ := rsaKey_ok hmade
    obtain ⟨k, hk⟩ : ∃ k, 8 * (length / 16) = k + 3 := ⟨8 * (length / 16) - 3, by omega⟩
    exact sized_of_ofRsa (by omega) hwhole (prime?_some hk hp) (prime?_some hk hq) hleft hright
      hmaterial

theorem derive_rsa_sized_shortest : ∃ key shown secret,
    (({ seed := [7] } : Session).derive (.rsa "RS256" (some 512)) "a" "umk").1 = .ok key ∧
      key.material = .rsa shown (some secret) ∧ Sized 512 shown secret := by
  obtain ⟨key, hkey⟩ := exists_of_isOk
    (x := (({ seed := [7] } : Session).derive (.rsa "RS256" (some 512)) "a" "umk").1)
    (by decide +kernel)
  obtain ⟨shown, secret, hmaterial, hsized⟩ := derive_rsa_sized hkey
  exact ⟨key, shown, secret, hkey, hmaterial, hsized⟩

end JoseTokens.Pairwise
