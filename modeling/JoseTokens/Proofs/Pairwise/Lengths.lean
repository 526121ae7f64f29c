import JoseTokens.Proofs.Pairwise.Primes
import Mathlib.Tactic.NormNum.Prime

namespace JoseTokens.Pairwise

theorem publicExponent_prime : Nat.Prime KeyRequest.publicExponent := by
  rw [KeyRequest.publicExponent]
  norm_num

theorem Found.coprime_exponent {k n : Nat} {other : Option Nat} (h : Found k other n) :
    Nat.Coprime KeyRequest.publicExponent (n - 1) :=
  publicExponent_prime.coprime_iff_not_dvd.mpr h.coprime

theorem Found.faultless_mul {k p q : Nat} {first second : Option Nat} (hk : 8 ≤ k)
    (hp : Found k first p) (hq : Found k second q) :
    (⟨p * q, KeyRequest.publicExponent⟩ : Rsa.PublicKey).fault? = none := by
  have hpower : 2 ^ 8 ≤ 2 ^ k := Nat.pow_le_pow_right (by decide) hk
  have hleft : 3 * 2 ^ 8 ≤ p := Nat.le_trans (Nat.mul_le_mul_left 3 hpower) hp.quarter.low
  have hright : 3 * 2 ^ 8 ≤ q := Nat.le_trans (Nat.mul_le_mul_left 3 hpower) hq.quarter.low
  have hproduct : 3 * 2 ^ 8 * (3 * 2 ^ 8) ≤ p * q := Nat.mul_le_mul hleft hright
  have hexponent : KeyRequest.publicExponent < 3 * 2 ^ 8 * (3 * 2 ^ 8) := by decide
  have hodd : p * q % 2 = 1 := by rw [Nat.mul_mod, hp.odd, hq.odd]
  exact Rsa.PublicKey.fault?_eq_none_iff.mpr
    ⟨Nat.lt_of_lt_of_le hexponent hproduct, hodd, by decide, by decide, by decide⟩

theorem Found.exists_ofPrimes {k p q : Nat} {first second : Option Nat} (hk : 8 ≤ k)
    (hp : Found k first p) (hq : Found k second q) :
    ∃ d, Rsa.ofPrimes p q KeyRequest.publicExponent =
      .ok ⟨p * q, KeyRequest.publicExponent, d, [p, q]⟩ := by
  have hpower : 0 < 2 ^ k := Nat.two_pow_pos k
  have hleft := hp.quarter.low
  have hright := hq.quarter.low
  exact Rsa.exists_ofPrimes (by omega) (by omega) hp.coprime_exponent hq.coprime_exponent
    (hp.faultless_mul hk hq)

structure Searched (seed : Bytes) (bits p q : Nat) : Prop where
  left : prime? seed 0 (bits / 16) none = some p
  right : prime? seed 1 (bits / 16) (some p) = some q

variable {seed : Bytes} {bits p q : Nat}

theorem Searched.found (h : Searched seed bits p q) (hleast : 512 ≤ bits) (hwhole : 16 ∣ bits) :
    ∃ k, bits = 2 * (k + 2) ∧ Found k none p ∧ Found k (some p) q := by
  obtain ⟨k, hk⟩ : ∃ k, 8 * (bits / 16) = k + 3 := ⟨8 * (bits / 16) - 3, by omega⟩
  exact ⟨k + 1, by omega, prime?_some hk h.left, prime?_some hk h.right⟩

theorem Searched.rsaKey_eq (h : Searched seed bits p q) (hleast : 512 ≤ bits) (hwhole : 16 ∣ bits) :
    ∃ d, Rsa.ofPrimes p q KeyRequest.publicExponent =
        .ok ⟨p * q, KeyRequest.publicExponent, d, [p, q]⟩ ∧
      rsaKey seed bits = .ok ⟨p * q, KeyRequest.publicExponent, d, [p, q]⟩ := by
  obtain ⟨k, hk, hp, hq⟩ := h.found hleast hwhole
  obtain ⟨d, hd⟩ := hp.exists_ofPrimes (by omega) hq
  refine ⟨d, hd, ?_⟩
  simp only [rsaKey, h.left, h.right, hd]

theorem rsaKey_unsearched (h : ∀ p q, ¬ Searched seed bits p q) :
    rsaKey seed bits = .error (.cryptoFailure .primesExhausted) := by
  rw [rsaKey]
  cases hleft : prime? seed 0 (bits / 16) none with
  | none => rfl
  | some p =>
      cases hright : prime? seed 1 (bits / 16) (some p) with
      | none => simp only [hright]
      | some q => exact absurd ⟨hleft, hright⟩ (h p q)

theorem rsaKey_searched {key : Rsa.PrivateKey} (h : rsaKey seed bits = .ok key) :
    ∃ p q, Searched seed bits p q := by
  obtain ⟨p, q, d, hp, hq, -⟩ := rsaKey_ok h
  exact ⟨p, q, hp, hq⟩

theorem Searched.check_toPublic (h : Searched seed bits p q) (hleast : 512 ≤ bits)
    (hwhole : 16 ∣ bits) :
    Rsa.bitLength (p * q) = bits ∧
      (⟨p * q, KeyRequest.publicExponent⟩ : Rsa.PublicKey).check =
        if Rsa.PublicKey.maxBits < bits then .error .modulusTooLarge
        else .ok ⟨p * q, KeyRequest.publicExponent⟩ := by
  obtain ⟨k, hk, hp, hq⟩ := h.found hleast hwhole
  have hlength : Rsa.bitLength (p * q) = bits := (hp.quarter.bitLength_mul hq.quarter).trans hk.symm
  refine ⟨hlength, ?_⟩
  rw [Rsa.PublicKey.check_of_faultless (hp.faultless_mul (by omega) hq), hlength]

theorem rsaKey_eq_error_iff (hleast : 512 ≤ bits) (hwhole : 16 ∣ bits) {error : Error} :
    rsaKey seed bits = .error error ↔
      error = .cryptoFailure .primesExhausted ∧ ∀ p q, ¬ Searched seed bits p q := by
  constructor
  · intro h
    have hnone : ∀ p q, ¬ Searched seed bits p q := by
      intro p q hpq
      obtain ⟨d, -, hkey⟩ := hpq.rsaKey_eq hleast hwhole
      rw [hkey] at h
      cases h
    rw [rsaKey_unsearched hnone] at h
    cases h
    exact ⟨rfl, hnone⟩
  · rintro ⟨rfl, hnone⟩
    exact rsaKey_unsearched hnone

theorem rsaKey_of_accepted {algorithm : String} {bits? : Option Nat} {target : Target}
    (h : Target.ofRequest (.rsa algorithm bits?) = .ok target) :
    ∃ length, target = .rsa algorithm length ∧
      (∀ seed p q, Searched seed length p q → ∃ key,
        Rsa.ofPrimes p q KeyRequest.publicExponent = .ok key ∧ rsaKey seed length = .ok key ∧
        Rsa.bitLength key.n = length ∧
        key.toPublic.check =
          if Rsa.PublicKey.maxBits < length then .error .modulusTooLarge else .ok key.toPublic) ∧
      (∀ seed error, rsaKey seed length = .error error ↔
        error = .cryptoFailure .primesExhausted ∧ ∀ p q, ¬ Searched seed length p q) ∧
      ((∃ seed key, rsaKey seed length = .ok key) ↔ ∃ seed p q, Searched seed length p q) := by
  obtain ⟨rfl, hleast, hwhole⟩ := ofRequest_rsa h
  refine ⟨_, rfl, ?_, fun seed error => rsaKey_eq_error_iff hleast hwhole, ?_, ?_⟩
  · intro seed p q hpq
    obtain ⟨d, hmade, hkey⟩ := hpq.rsaKey_eq hleast hwhole
    obtain ⟨hlength, hcheck⟩ := hpq.check_toPublic hleast hwhole
    exact ⟨_, hmade, hkey, hlength, hcheck⟩
  · rintro ⟨seed, key, hkey⟩
    exact ⟨seed, rsaKey_searched hkey⟩
  · rintro ⟨seed, p, q, hpq⟩
    obtain ⟨d, -, hkey⟩ := hpq.rsaKey_eq hleast hwhole
    exact ⟨seed, _, hkey⟩

end JoseTokens.Pairwise
