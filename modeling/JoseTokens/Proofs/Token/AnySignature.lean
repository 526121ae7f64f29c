import JoseTokens.Proofs.Token.Verification

namespace JoseTokens.Jws

section

variable {config : Config} {store : KeyStore} {candidates : List Jwk} {payload : Bytes}
  {s : Signature}

def NamesKeyed (s : Signature) : Prop :=
  ∃ alg a, s.alg? = some alg ∧ Algorithm.ofId alg = .ok a ∧ a.needs?.isSome

def Answered (e : Engine (Except Error)) (candidates : List Jwk) (payload : Bytes)
    (s : Signature) : Prop :=
  ∃ alg found, s.alg? = some alg ∧
    matchesSome e alg s.signature (signingInput s.protectedHeader payload) candidates = .ok found

theorem NamesKeyed.answered (h : NamesKeyed s) (config : Config) (store : KeyStore)
    (candidates : List Jwk) (payload : Bytes) :
    Answered (Engine.software config store) candidates payload s := by
  obtain ⟨alg, a, halg, ha, hneeds⟩ := h
  have honly (key : Jwk) := verify_software_keyed ha hneeds config store key s.signature
    (signingInput s.protectedHeader payload)
  exact ⟨alg, _, halg, matchesSome_onlyMismatches honly candidates⟩

theorem Answered.namesKeyed (h : Answered (Engine.software config store) candidates payload s)
    (hsome : candidates ≠ []) : NamesKeyed s := by
  obtain ⟨alg, found, halg, hfound⟩ := h
  obtain ⟨key, rest, rfl⟩ := List.exists_cons_of_ne_nil hsome
  by_contra hnot
  have hkeyless : ∀ a, Algorithm.ofId alg = .ok a → a.needs? = none := by
    intro a ha
    by_contra hneeds
    exact hnot ⟨alg, a, halg, ha, Option.isSome_iff_ne_none.mpr hneeds⟩
  obtain ⟨error, hother, herror⟩ := verify_software_keyless hkeyless config store
  rw [matchesSome_error (herror key _ _) hother] at hfound
  cases hfound

theorem verifyEntries_any_iff (hany : config.verifyAllSignatures = false) (index verified : Nat)
    (entries : List Signature) :
    verifyEntries (Engine.software config store) candidates payload index verified entries =
        .ok true ↔
      (0 < verified ∨
        ∃ s ∈ entries, EntryVerified (Engine.software config store) candidates payload s) ∧
      ∀ s ∈ entries, Answered (Engine.software config store) candidates payload s := by
  have hconfig : (Engine.software config store).config.verifyAllSignatures = false := hany
  induction entries generalizing index verified with
  | nil => simp [verifyEntries, pure, Except.pure]
  | cons s entries ih =>
      rw [List.forall_mem_cons, List.exists_mem_cons_iff]
      cases halg : s.alg? with
      | none => simp [verifyEntries_missing halg, Answered, halg]
      | some alg =>
          rw [verifyEntries_cons halg, entryVerified_iff halg]
          cases hmatch : matchesSome (Engine.software config store) alg s.signature
              (signingInput s.protectedHeader payload) candidates with
          | error error => simp [Except.bind, Answered, halg, hmatch]
          | ok found =>
              have hanswered : Answered (Engine.software config store) candidates payload s :=
                ⟨alg, found, halg, hmatch⟩
              -- A verified entry counts for the rest of the pass, another leaves it as it was.
              cases found with
              | true => simp [Except.bind, ih, hanswered]
              | false => simp [Except.bind, ih, hanswered, hconfig]

theorem verify_unsigned {e : Engine (Except Error)} {t : Jws} (h : t.signatures = [])
    (candidates : List Jwk) (supplied : Option Bytes) :
    verify e t candidates supplied = .error (.malformedToken "signatures") := by
  rw [verify, h]
  rfl

theorem verify_any_iff (hany : config.verifyAllSignatures = false) (store : KeyStore) (t : Jws)
    (candidates : List Jwk) {supplied : Option Bytes}
    (hpayload : ∀ payload, supplied = some payload → t.payload = [] ∨ payload = t.payload) :
    verify (Engine.software config store) t candidates supplied = .ok true ↔
      (∃ s ∈ t.signatures, EntryVerified (Engine.software config store) candidates
        (t.payloadUsed supplied) s) ∧
      ∀ s ∈ t.signatures, NamesKeyed s := by
  by_cases hsome : t.signatures = []
  · simp [verify_unsigned hsome, hsome]
  rw [verify_eq_verifyEntries hsome hpayload, verifyEntries_any_iff hany]
  simp only [Nat.lt_irrefl, false_or]
  -- Some candidate is tried, so that an algorithm that takes no key is noticed.
  refine and_congr_right fun ⟨_, _, _, _, key, hkey, _⟩ => ?_
  have hcandidates : candidates ≠ [] := List.ne_nil_of_mem hkey
  exact ⟨fun h s hs => (h s hs).namesKeyed hcandidates,
    fun h s hs => (h s hs).answered config store candidates _⟩

end

def strayEntry (header : Header) : Signature where
  header
  signature := [1]

def strayToken (headers : List Header) : Jws where
  signatures := headers.map strayEntry ++ (detachedToken {}).signatures

theorem strayToken_verified (headers : List Header) :
    ∃ s ∈ (strayToken headers).signatures,
      EntryVerified (Engine.software { verifyAllSignatures := false } (.memory {}))
        [Jwk.oct [1], detachedKey] [104, 105] s :=
  ⟨_, List.mem_append_right _ List.mem_cons_self, "HS256", by decide, detachedKey, by simp,
    by decide +kernel⟩

theorem verify_any_strays :
    verify (Engine.software { verifyAllSignatures := false } (.memory {}))
      (strayToken [Header.insertText {} "alg" "EdDSA", Header.insertText {} "alg" "RSA-OAEP"])
      [Jwk.oct [1], detachedKey] (some [104, 105]) = .ok true := by
  refine (verify_any_iff rfl _ _ _ fun _ _ => .inl rfl).mpr ⟨strayToken_verified _, ?_⟩
  intro s hs
  rcases List.mem_cons.mp hs with rfl | hs
  · exact ⟨"EdDSA", _, rfl, rfl, rfl⟩
  rcases List.mem_cons.mp hs with rfl | hs
  · exact ⟨"RSA-OAEP", _, rfl, rfl, rfl⟩
  · obtain rfl := List.mem_singleton.mp hs
    exact ⟨"HS256", _, rfl, rfl, rfl⟩

theorem not_verify_any :
    ¬ ∀ (config : Config) (store : KeyStore) (t : Jws) (candidates : List Jwk)
      (supplied : Option Bytes), config.verifyAllSignatures = false →
      (∀ payload, supplied = some payload → t.payload = [] ∨ payload = t.payload) →
      (∃ s ∈ t.signatures,
        EntryVerified (Engine.software config store) candidates (t.payloadUsed supplied) s) →
      verify (Engine.software config store) t candidates supplied = .ok true := by
  intro h
  have haccepted := h { verifyAllSignatures := false } (.memory {}) (strayToken [{}])
    [Jwk.oct [1], detachedKey] (some [104, 105]) rfl (fun _ _ => .inl rfl) (strayToken_verified _)
  have hmissing : verify (Engine.software { verifyAllSignatures := false } (.memory {}))
      (strayToken [{}]) [Jwk.oct [1], detachedKey] (some [104, 105]) =
        .error (.missingAlgorithm "signature 0") := by
    decide +kernel
  rw [haccepted] at hmissing
  cases hmissing

end JoseTokens.Jws
