import JoseTokens.Proofs.Token.AnySignature

namespace JoseTokens.Jws

section

variable {m : Type → Type} [Monad m] [MonadExceptOf Error m]

theorem verifyEntries_congr (e : Engine m) {candidates others : List Jwk}
    (h : ∀ alg signature input,
      matchesSome e alg signature input candidates = matchesSome e alg signature input others)
    (payload : Bytes) (index verified : Nat) (entries : List Signature) :
    verifyEntries e candidates payload index verified entries =
      verifyEntries e others payload index verified entries := by
  induction entries generalizing index verified with
  | nil => rfl
  | cons s entries ih =>
      rw [verifyEntries, verifyEntries]
      simp only [h, ih]

end

theorem agreeing_of_verify {e : Engine (Except Error)} {t : Jws} {candidates : List Jwk}
    {supplied : Option Bytes} {found : Bool} (h : verify e t candidates supplied = .ok found) :
    t.signatures ≠ [] ∧
      ∀ payload, supplied = some payload → t.payload = [] ∨ payload = t.payload := by
  have hsome : t.signatures ≠ [] := by
    intro hnone
    rw [verify_unsigned hnone] at h
    cases h
  refine ⟨hsome, ?_⟩
  rintro payload rfl
  by_contra hother
  obtain ⟨hpayload, hne⟩ := not_or.mp hother
  have hempty : t.signatures.isEmpty = false := by simpa using hsome
  have hrefused : t.payloadFor (some payload) = .error (.invalidArgument .otherPayload) := by
    simp [payloadFor, hpayload, hne]
  rw [verify, hrefused, hempty] at h
  cases h

variable {config : Config} {store : KeyStore} {candidates others : List Jwk}

theorem matchesSome_sameKeys (h : ∀ key, key ∈ candidates ↔ key ∈ others) (alg : String)
    (signature input : Bytes) :
    matchesSome (Engine.software config store) alg signature input candidates =
      matchesSome (Engine.software config store) alg signature input others := by
  rcases verify_software_cases config store alg with ⟨error, hother, herror⟩ | honly
  · cases candidates with
    | nil =>
        have hnone : others = [] :=
          List.eq_nil_iff_forall_not_mem.mpr fun key hkey => List.not_mem_nil ((h key).mpr hkey)
        rw [hnone]
    | cons key candidates =>
        obtain ⟨first, rest, rfl⟩ := List.exists_cons_of_ne_nil
          (List.ne_nil_of_mem ((h key).mp List.mem_cons_self))
        rw [matchesSome_error (herror key _ _) hother, matchesSome_error (herror first _ _) hother]
  · have hany : candidates.any (accepts (Engine.software config store) alg signature input) =
        others.any (accepts (Engine.software config store) alg signature input) := by
      rw [Bool.eq_iff_iff, List.any_eq_true, List.any_eq_true]
      simp only [h]
    rw [matchesSome_onlyMismatches (honly · signature input),
      matchesSome_onlyMismatches (honly · signature input), hany]

theorem EntryVerified.mono {e : Engine (Except Error)} {payload : Bytes} {s : Signature}
    (hsubset : candidates ⊆ others) (h : EntryVerified e candidates payload s) :
    EntryVerified e others payload s := by
  obtain ⟨alg, halg, key, hkey, hverify⟩ := h
  exact ⟨alg, halg, key, hsubset hkey, hverify⟩

theorem verifyEntries_mono (hsubset : candidates ⊆ others) {payload : Bytes}
    {entries : List Signature}
    (h : verifyEntries (Engine.software config store) candidates payload 0 0 entries = .ok true) :
    verifyEntries (Engine.software config store) others payload 0 0 entries = .ok true := by
  cases hall : config.verifyAllSignatures with
  | true =>
      rw [verifyEntries_all_iff hall] at h ⊢
      exact ⟨h.1, fun s hs => (h.2 s hs).mono hsubset⟩
  | false =>
      rw [verifyEntries_any_iff hall] at h ⊢
      obtain ⟨hfound, hanswered⟩ := h
      obtain ⟨s, hs, hverified⟩ := hfound.resolve_left (Nat.lt_irrefl 0)
      -- The candidate that verified an entry has been tried on the others too.
      obtain ⟨_, _, key, hkey, _⟩ := id hverified
      have hsome : candidates ≠ [] := List.ne_nil_of_mem hkey
      exact ⟨.inr ⟨s, hs, hverified.mono hsubset⟩, fun other hother =>
        ((hanswered other hother).namesKeyed hsome).answered config store others payload⟩

theorem verify_candidates (config : Config) (store : KeyStore) (t : Jws) (supplied : Option Bytes)
    (candidates others : List Jwk) :
    (candidates.Perm others →
      verify (Engine.software config store) t candidates supplied =
        verify (Engine.software config store) t others supplied) ∧
    (candidates.Sublist others →
      verify (Engine.software config store) t candidates supplied = .ok true →
      verify (Engine.software config store) t others supplied = .ok true) := by
  constructor
  · intro hperm
    have hsame (alg : String) (signature input : Bytes) :
        matchesSome (Engine.software config store) alg signature input candidates =
          matchesSome (Engine.software config store) alg signature input others :=
      matchesSome_sameKeys (fun _ => hperm.mem_iff) alg signature input
    rw [verify, verify]
    simp only [verifyEntries_congr _ hsame]
  · intro hsublist h
    obtain ⟨hsome, hagreeing⟩ := agreeing_of_verify h
    rw [verify_eq_verifyEntries hsome hagreeing] at h ⊢
    exact verifyEntries_mono hsublist.subset h

def strayKeys : List Jwk := [
  { material := .ec ⟨"P-256", [1], [2]⟩ none },
  { material := .ec ⟨"secp256k1", [1], [2]⟩ none },
  Jwk.oct []]

theorem verify_candidates_strays :
    verify (Engine.software {} (.memory {})) (detachedToken {}) [Jwk.oct [1], detachedKey]
        (some [104, 105]) =
      verify (Engine.software {} (.memory {})) (detachedToken {}) [detachedKey, Jwk.oct [1]]
        (some [104, 105]) ∧
    verify (Engine.software {} (.memory {})) (detachedToken {}) (strayKeys ++ [detachedKey])
      (some [104, 105]) = .ok true :=
  ⟨(verify_candidates _ _ _ _ _ _).1 (.swap ..),
    (verify_candidates {} (.memory {}) _ _ [detachedKey] _).2 (List.sublist_append_right ..)
      (by decide +kernel)⟩

end JoseTokens.Jws
