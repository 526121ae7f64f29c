import JoseTokens.Proofs.Number.Modular
import Mathlib.Algebra.BigOperators.Group.List.Basic
import Mathlib.Data.List.Prime
import Mathlib.NumberTheory.LucasPrimality

namespace JoseTokens.Number

def isSmallPrime (n : Nat) : Bool :=
  decide (2 ≤ n) && decide (n < 256 * 256) && (List.range 256).all fun k =>
    decide (k < 2) || decide (n ≤ k) || n % k != 0

/-- A number that has an element of order one less, and the prime factors of that order. -/
structure LucasEntry where
  number : Nat
  root : Nat
  factors : List Nat

def LucasEntry.check (entry : LucasEntry) (known : List Nat) : Bool :=
  entry.factors.all (fun q => isSmallPrime q || known.contains q) &&
    decide (1 < entry.number) && entry.factors.prod == entry.number - 1 &&
    powMod entry.root (entry.number - 1) entry.number == 1 &&
    entry.factors.all fun q => powMod entry.root ((entry.number - 1) / q) entry.number != 1

def checkEntries : List Nat → List LucasEntry → Bool
  | _, [] => true
  | known, entry :: entries => entry.check known && checkEntries (entry.number :: known) entries

theorem prime_of_isSmallPrime {n : Nat} (h : isSmallPrime n = true) : n.Prime := by
  simp only [isSmallPrime, Bool.and_eq_true, decide_eq_true_eq, List.all_eq_true, List.mem_range,
    Bool.or_eq_true, bne_iff_ne] at h
  obtain ⟨⟨htwo, hsize⟩, htrial⟩ := h
  by_contra hnot
  have hsquare := Nat.minFac_sq_le_self (by omega) hnot
  have hfactor := Nat.minFac_prime (n := n) (by omega)
  have hsmall : n.minFac < 256 := by
    by_contra hlarge
    have := Nat.pow_le_pow_left (Nat.le_of_not_lt hlarge) 2
    omega
  have hlt : n.minFac < n := (Nat.not_prime_iff_minFac_lt htwo).mp hnot
  rcases htrial n.minFac hsmall with (htwo' | hle) | hrest
  · exact absurd htwo' (Nat.not_lt.mpr hfactor.two_le)
  · omega
  · exact hrest (Nat.mod_eq_zero_of_dvd (Nat.minFac_dvd n))

theorem LucasEntry.prime {entry : LucasEntry} {known : List Nat} (hknown : ∀ q ∈ known, q.Prime)
    (h : entry.check known = true) : entry.number.Prime := by
  simp only [check, Bool.and_eq_true, List.all_eq_true, Bool.or_eq_true, List.contains_iff_mem,
    decide_eq_true_eq, beq_iff_eq, bne_iff_ne, powMod_eq] at h
  obtain ⟨⟨⟨⟨hfactors, hone⟩, hproduct⟩, hroot⟩, hparts⟩ := h
  have hprime : ∀ q ∈ entry.factors, q.Prime := fun q hq =>
    (hfactors q hq).elim prime_of_isSmallPrime (hknown q)
  have hpow (k : Nat) : (entry.root : ZMod entry.number) ^ k = 1 ↔
      entry.root ^ k % entry.number = 1 := by
    rw [← Nat.cast_pow, ← Nat.cast_one, ZMod.natCast_eq_natCast_iff', Nat.mod_eq_of_lt hone]
  refine lucas_primality _ (entry.root : ZMod entry.number) ((hpow _).mpr hroot) ?_
  intro q hq hdvd
  rw [← hproduct] at hdvd
  obtain ⟨factor, hmem, hfactor⟩ := (hq.prime.dvd_prod_iff).mp hdvd
  obtain rfl := (Nat.prime_dvd_prime_iff_eq hq (hprime factor hmem)).mp hfactor
  exact (hpow _).not.mpr (hparts q hmem)

theorem prime_of_checkEntries {known : List Nat} {entries : List LucasEntry}
    (hknown : ∀ q ∈ known, q.Prime) (h : checkEntries known entries = true) :
    ∀ entry ∈ entries, entry.number.Prime := by
  induction entries generalizing known with
  | nil => exact fun _ hentry => absurd hentry List.not_mem_nil
  | cons first entries ih =>
      obtain ⟨hfirst, hrest⟩ := Bool.and_eq_true_iff.mp h
      have hprime := first.prime hknown hfirst
      exact List.forall_mem_cons.mpr ⟨hprime, ih (List.forall_mem_cons.mpr ⟨hprime, hknown⟩) hrest⟩

theorem prime_of_lastEntry {entries : List LucasEntry} (h : checkEntries [] entries = true)
    {last : LucasEntry} (hlast : entries.getLast? = some last) : last.number.Prime :=
  prime_of_checkEntries (fun _ hq => absurd hq List.not_mem_nil) h last
    (List.mem_of_getLast? hlast)

end JoseTokens.Number
