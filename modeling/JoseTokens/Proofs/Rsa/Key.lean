import JoseTokens.Proofs.Number.Modular
import JoseTokens.Proofs.Number.Octets
import JoseTokens.Rsa.Key

namespace JoseTokens

namespace Bytes

theorem length_minimal (n : Nat) : (minimal n).length = width n :=
  length_ofNat _ _

theorem head?_minimal {n : Nat} (h : n ≠ 0) : (minimal n).head? ≠ some 0 := by
  intro hhead
  obtain ⟨rest, hrest⟩ := List.head?_eq_some_iff.mp hhead
  have hlength := length_minimal n
  have hvalue := toNat_minimal n
  rw [hrest, List.length_cons] at hlength
  rw [hrest, toNat_zero_cons] at hvalue
  have hlow := pow_width_le h
  have hhigh := toNat_lt rest
  rw [hvalue, show rest.length = width n - 1 by omega] at hhigh
  exact absurd hlow (Nat.not_le.mpr hhigh)

end Bytes

namespace Rsa

theorem bitLength_eq {n k : Nat} (hlow : 2 ^ k ≤ n) (hhigh : n < 2 ^ (k + 1)) :
    bitLength n = k + 1 := by
  have hn : n ≠ 0 := Nat.ne_of_gt (Nat.lt_of_lt_of_le (Nat.two_pow_pos k) hlow)
  rw [bitLength, if_neg hn, (Nat.log2_eq_iff hn).mpr ⟨hlow, hhigh⟩]

theorem length_minimal_of_bitLength {n octets : Nat} (hn : n ≠ 0)
    (h : bitLength n = 8 * octets) : (Bytes.minimal n).length = octets := by
  rw [bitLength, if_neg hn] at h
  rw [Bytes.length_minimal, Bytes.width]
  omega

theorem PublicKey.fault?_eq_none_iff {n e : Nat} : (⟨n, e⟩ : PublicKey).fault? = none ↔
    e < n ∧ n % 2 = 1 ∧ e % 2 = 1 ∧ 2 ≤ e ∧ e < Nat.pow 2 33 := by
  have hnarrow : Nat.pow 2 33 = 8589934592 := rfl
  have hwide : Nat.pow 2 64 = 18446744073709551616 := rfl
  simp only [fault?, hnarrow, hwide]
  grind

namespace PrivateKey

theorem check_eq_ok_iff {key checked : PrivateKey} :
    key.check = .ok checked ↔ key.fault? = none ∧ key = checked := by
  rw [check]
  cases key.fault? with
  | none => simp
  | some fault => simp

theorem fault?_eq_none_iff {n e d p q : Nat} :
    (⟨n, e, d, [p, q]⟩ : PrivateKey).fault? = none ↔
      (⟨n, e⟩ : PublicKey).fault? = none ∧ 1 < p ∧ 1 < q ∧ n = p * q ∧
        d * e % (p - 1) = 1 ∧ d * e % (q - 1) = 1 := by
  rw [fault?, toPublic]
  cases (⟨n, e⟩ : PublicKey).fault? with
  | some fault => simp
  | none =>
      simp only [List.any_cons, List.any_nil, List.foldl_cons, List.foldl_nil, List.all_cons,
        List.all_nil, Bool.or_false, Bool.and_true, Nat.one_mul, true_and]
      by_cases hprimes : p ≤ 1 ∨ q ≤ 1
      · simp [hprimes]
        omega
      · by_cases hproduct : p * q = n
        · simp [hprimes, hproduct]
          omega
        · simp [hprimes, hproduct, Ne.symm hproduct]

end PrivateKey

theorem ofPrimes_ok {p q e : Nat} {key : PrivateKey} (h : ofPrimes p q e = .ok key) :
    ∃ d, key = ⟨p * q, e, d, [p, q]⟩ ∧ d * e % (p - 1) = 1 ∧ d * e % (q - 1) = 1 := by
  rw [ofPrimes] at h
  split at h
  next d _ =>
    obtain ⟨hfault, rfl⟩ := PrivateKey.check_eq_ok_iff.mp h
    obtain ⟨-, -, -, -, hp, hq⟩ := PrivateKey.fault?_eq_none_iff.mp hfault
    exact ⟨d, rfl, hp, hq⟩
  · cases h

theorem exists_ofPrimes {p q e : Nat} (hp : 2 < p) (hq : 2 < q) (hleft : Nat.Coprime e (p - 1))
    (hright : Nat.Coprime e (q - 1)) (hpublic : (⟨p * q, e⟩ : PublicKey).fault? = none) :
    ∃ d, ofPrimes p q e = .ok ⟨p * q, e, d, [p, q]⟩ := by
  have hcoprime : Nat.Coprime e (Nat.lcm (p - 1) (q - 1)) :=
    (hleft.mul_right hright).coprime_dvd_right (Nat.lcm_dvd_mul (p - 1) (q - 1))
  have hone : 1 < Nat.lcm (p - 1) (q - 1) :=
    Nat.lt_of_lt_of_le (by omega)
      (Nat.le_of_dvd (Nat.lcm_pos (by omega) (by omega)) (Nat.dvd_lcm_left (p - 1) (q - 1)))
  obtain ⟨d, hd⟩ := Number.inverse?_isSome hcoprime
  have hinverse : ∀ m, 1 < m → m ∣ Nat.lcm (p - 1) (q - 1) → d * e % m = 1 := by
    intro m hm hdvd
    have hmod : e * d % m = 1 % m := (Number.inverse?_spec hone hd).of_dvd hdvd
    rw [Nat.mul_comm, hmod, Nat.mod_eq_of_lt hm]
  refine ⟨d, ?_⟩
  rw [ofPrimes, hd]
  refine PrivateKey.check_eq_ok_iff.mpr ⟨PrivateKey.fault?_eq_none_iff.mpr ?_, rfl⟩
  exact ⟨hpublic, by omega, by omega, rfl, hinverse _ (by omega) (Nat.dvd_lcm_left _ _),
    hinverse _ (by omega) (Nat.dvd_lcm_right _ _)⟩

theorem PublicKey.check_of_faultless {key : PublicKey} (h : key.fault? = none) :
    key.check = if maxBits < bitLength key.n then .error .modulusTooLarge else .ok key := by
  rw [check, h]

end Rsa

end JoseTokens
