import JoseTokens.Proofs.Number.Modular
import JoseTokens.Rsa.Power
import Mathlib.FieldTheory.Finite.Basic

namespace JoseTokens.Rsa

theorem pow_modEq_self {p : Nat} (hp : p.Prime) {k : Nat} (hk : k % (p - 1) = 1) (m : Nat) :
    m ^ k ≡ m [MOD p] := by
  have hsplit : k = (p - 1) * (k / (p - 1)) + 1 := by
    have hdiv := Nat.div_add_mod k (p - 1)
    omega
  by_cases hdvd : p ∣ m
  · have hzero : m ≡ 0 [MOD p] := (Nat.modEq_zero_iff_dvd).mpr hdvd
    have hpow := hzero.pow k
    rw [hsplit, zero_pow (Nat.succ_ne_zero _), ← hsplit] at hpow
    exact hpow.trans hzero.symm
  · have hcoprime : Nat.Coprime m p := (Nat.Prime.coprime_iff_not_dvd hp).mpr hdvd |>.symm
    have hone : m ^ (p - 1) ≡ 1 [MOD p] := by
      have htotient := Nat.ModEq.pow_totient hcoprime
      rwa [Nat.totient_prime hp] at htotient
    have hpow := (hone.pow (k / (p - 1))).mul_right m
    rw [one_pow, one_mul, ← pow_mul, ← pow_succ, ← hsplit] at hpow
    exact hpow

theorem powMod_private {p n d e m : Nat} (hp : p.Prime) (hdvd : p ∣ n)
    (hexponent : d * e % (p - 1) = 1) :
    Number.powMod (Number.powMod m e n) (d % (p - 1)) p = m % p := by
  have hinner : m ^ e % n ≡ m ^ e [MOD p] := (Nat.mod_modEq (m ^ e) n).of_dvd hdvd
  have hreduced : e * (d % (p - 1)) % (p - 1) = 1 := by
    rw [Nat.mul_mod_mod, Nat.mul_comm, hexponent]
  have hself : m ^ (e * (d % (p - 1))) ≡ m [MOD p] := pow_modEq_self hp hreduced m
  rw [pow_mul] at hself
  rw [Number.powMod_eq, Number.powMod_eq]
  exact (hinner.pow (d % (p - 1))).trans hself

theorem recombine_eq {p q qi m : Nat} (hp : p.Prime) (hq : q.Prime) (hne : p ≠ q)
    (hqi : q * qi ≡ 1 [MOD p]) (hm : m < p * q) :
    PrivateKey.recombine p q qi (m % p) (m % q) = m := by
  have hcoprime : Nat.Coprime p q := (Nat.coprime_primes hp hq).mpr hne
  have hsmall : m % q % p < p := Nat.mod_lt _ hp.pos
  have hrest : m % q < q := Nat.mod_lt _ hq.pos
  have hdifference : m % p + p - m % q % p + m % q % p = m % p + p := by omega
  have hleft : PrivateKey.recombine p q qi (m % p) (m % q) ≡ m [MOD p] := by
    have hscaled : (m % p + p - m % q % p) % p * qi % p * q ≡ m % p + p - m % q % p [MOD p] := by
      calc (m % p + p - m % q % p) % p * qi % p * q
          ≡ (m % p + p - m % q % p) * qi * q [MOD p] :=
            (((Nat.mod_modEq _ p).trans ((Nat.mod_modEq _ p).mul_right qi)).mul_right q)
        _ = (m % p + p - m % q % p) * (q * qi) := by ring
        _ ≡ (m % p + p - m % q % p) * 1 [MOD p] := hqi.mul_left _
        _ = m % p + p - m % q % p := mul_one _
    calc PrivateKey.recombine p q qi (m % p) (m % q)
        ≡ m % p + p - m % q % p + m % q % p [MOD p] :=
          hscaled.add (Nat.mod_modEq _ p).symm
      _ = m % p + p := hdifference
      _ ≡ m [MOD p] := by simp [Nat.ModEq]
  have hright : PrivateKey.recombine p q qi (m % p) (m % q) ≡ m [MOD q] := by
    simp [PrivateKey.recombine, Nat.ModEq]
  have hboth := (Nat.modEq_and_modEq_iff_modEq_mul hcoprime).mp ⟨hleft, hright⟩
  have hbound : PrivateKey.recombine p q qi (m % p) (m % q) < p * q := by
    have hquotient : (m % p + p - m % q % p) % p * qi % p < p := Nat.mod_lt _ hp.pos
    rw [PrivateKey.recombine]
    calc (m % p + p - m % q % p) % p * qi % p * q + m % q
        < (m % p + p - m % q % p) % p * qi % p * q + q := Nat.add_lt_add_left hrest _
      _ = ((m % p + p - m % q % p) % p * qi % p + 1) * q := by ring
      _ ≤ p * q := Nat.mul_le_mul_right q hquotient
  exact Nat.ModEq.eq_of_lt_of_lt hboth hbound hm

structure Sound (key : PrivateKey) (p q : Nat) : Prop where
  primes : key.primes = [p, q]
  modulus : key.n = p * q
  left : p.Prime
  right : q.Prime
  distinct : p ≠ q
  leftExponent : key.d * key.e % (p - 1) = 1
  rightExponent : key.d * key.e % (q - 1) = 1

variable {key : PrivateKey} {p q : Nat}

theorem Sound.power_power (h : Sound key p q) {m : Nat} (hm : m < key.n) :
    key.power (key.toPublic.power m) = m := by
  have hcoprime : Nat.Coprime q p := (Nat.coprime_primes h.right h.left).mpr h.distinct.symm
  obtain ⟨qi, hqi⟩ := Number.inverse?_isSome hcoprime
  have hpublic : key.toPublic.power m = Number.powMod m key.e key.n := rfl
  have hleft := powMod_private (m := m) h.left (Dvd.intro q h.modulus.symm) h.leftExponent
  have hright := powMod_private (m := m) h.right (Dvd.intro_left p h.modulus.symm) h.rightExponent
  rw [PrivateKey.power, h.primes]
  simp only [hqi, hpublic, hleft, hright]
  rw [h.modulus] at hm
  exact recombine_eq h.left h.right h.distinct (Number.inverse?_spec h.left.one_lt hqi) hm

theorem Sound.root_power (h : Sound key p q) {m : Nat} (hm : m < key.n) :
    key.root (key.toPublic.power m) = .ok m := by
  rw [PrivateKey.root, h.power_power hm]
  simp

end JoseTokens.Rsa
