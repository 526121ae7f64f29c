import JoseTokens.Proofs.Outcome
import JoseTokens.Proofs.Token.Candidates

namespace JoseTokens.Jws

section

variable {e : Engine (Except Error)} {candidates : List Jwk} {payload : Bytes}

def entryAnswer (e : Engine (Except Error)) (candidates : List Jwk) (payload : Bytes)
    (s : Signature) : Option Bool :=
  s.alg?.bind fun alg =>
    (matchesSome e alg s.signature (signingInput s.protectedHeader payload) candidates).toOption

def Passed (e : Engine (Except Error)) (candidates : List Jwk) (payload : Bytes)
    (s : Signature) : Prop :=
  entryAnswer e candidates payload s = some true ∨
    e.config.verifyAllSignatures = false ∧ entryAnswer e candidates payload s = some false

/-- There are not both an entry that no candidate verifies and one that has no answer, if all
signatures have to be verified. -/
def Unmixed (e : Engine (Except Error)) (candidates : List Jwk) (payload : Bytes)
    (entries : List Signature) : Prop :=
  e.config.verifyAllSignatures = true →
    (∀ s ∈ entries, entryAnswer e candidates payload s ≠ some false) ∨
      ∀ s ∈ entries, entryAnswer e candidates payload s ≠ none

theorem Unmixed.tail {s : Signature} {entries : List Signature}
    (h : Unmixed e candidates payload (s :: entries)) : Unmixed e candidates payload entries :=
  fun hall => (h hall).imp (fun h s hs => h s (List.mem_cons_of_mem _ hs))
    fun h s hs => h s (List.mem_cons_of_mem _ hs)

theorem entryAnswer_missing {s : Signature} (h : s.alg? = none) :
    entryAnswer e candidates payload s = none := by
  rw [entryAnswer, h]
  rfl

theorem entryAnswer_eq_some_iff {s : Signature} {found : Bool} :
    entryAnswer e candidates payload s = some found ↔ ∃ alg, s.alg? = some alg ∧
      matchesSome e alg s.signature (signingInput s.protectedHeader payload) candidates =
        .ok found := by
  simp only [entryAnswer, Option.bind_eq_some_iff, toOption_eq_some_iff]

theorem toOption_verifyEntries_cons (index verified : Nat) (s : Signature)
    (rest : List Signature) :
    (verifyEntries e candidates payload index verified (s :: rest)).toOption =
      (entryAnswer e candidates payload s).bind fun found =>
        if found then (verifyEntries e candidates payload (index + 1) (verified + 1) rest).toOption
        else if e.config.verifyAllSignatures then some false
        else (verifyEntries e candidates payload (index + 1) verified rest).toOption := by
  cases halg : s.alg? with
  | none =>
      rw [verifyEntries_missing halg, entryAnswer, halg]
      rfl
  | some alg =>
      rw [verifyEntries_cons halg, entryAnswer, halg, Option.bind_some]
      cases matchesSome e alg s.signature (signingInput s.protectedHeader payload) candidates with
      | error error => rfl
      | ok found =>
          cases found with
          | true => rfl
          | false =>
              cases hall : e.config.verifyAllSignatures <;> simp [Except.bind, Except.toOption]

theorem verifyEntries_accepts_iff (index verified : Nat) (entries : List Signature) :
    (verifyEntries e candidates payload index verified entries).toOption = some true ↔
      (∀ s ∈ entries, Passed e candidates payload s) ∧
        (0 < verified ∨ ∃ s ∈ entries, entryAnswer e candidates payload s = some true) := by
  induction entries generalizing index verified with
  | nil => simp [verifyEntries, pure, Except.pure, Except.toOption]
  | cons s entries ih =>
      rw [toOption_verifyEntries_cons, List.forall_mem_cons, List.exists_mem_cons_iff, Passed]
      cases entryAnswer e candidates payload s with
      | none => simp
      | some found =>
          cases found with
          | true => simp [ih]
          | false => cases e.config.verifyAllSignatures <;> simp [ih]

theorem verifyEntries_fails_iff {entries : List Signature}
    (h : Unmixed e candidates payload entries) (index verified : Nat) :
    (verifyEntries e candidates payload index verified entries).toOption = none ↔
      ∃ s ∈ entries, entryAnswer e candidates payload s = none := by
  induction entries generalizing index verified with
  | nil => simp [verifyEntries, pure, Except.pure, Except.toOption]
  | cons s entries ih =>
      have hrest := ih h.tail
      rw [toOption_verifyEntries_cons, List.exists_mem_cons_iff]
      cases hanswer : entryAnswer e candidates payload s with
      | none => simp
      | some found =>
          cases found with
          | true => simp [hrest]
          | false =>
              cases hall : e.config.verifyAllSignatures with
              | false => simp [hrest]
              | true =>
                  have hothers := (h hall).resolve_left fun h => h s List.mem_cons_self hanswer
                  simpa using fun s hs => hothers s (List.mem_cons_of_mem _ hs)

theorem verifyEntries_passed {s : Signature} (h : Passed e candidates payload s)
    (index verified : Nat) (rest : List Signature) :
    ∃ counted, verifyEntries e candidates payload index verified (s :: rest) =
      verifyEntries e candidates payload (index + 1) counted rest := by
  rcases h with hverified | ⟨hany, hrefused⟩
  · obtain ⟨alg, halg, hfound⟩ := entryAnswer_eq_some_iff.mp hverified
    exact ⟨verified + 1, by rw [verifyEntries_cons halg, hfound]; rfl⟩
  · obtain ⟨alg, halg, hfound⟩ := entryAnswer_eq_some_iff.mp hrefused
    refine ⟨verified, ?_⟩
    rw [verifyEntries_cons halg, hfound]
    simp [Except.bind, hany]

theorem verifyEntries_reached {before : List Signature}
    (h : ∀ s ∈ before, Passed e candidates payload s) {s : Signature} (halg : s.alg? = none)
    (after : List Signature) (index verified : Nat) :
    verifyEntries e candidates payload index verified (before ++ s :: after) =
      .error (.missingAlgorithm s!"signature {index + before.length}") := by
  induction before generalizing index verified with
  | nil => exact verifyEntries_missing halg ..
  | cons first before ih =>
      obtain ⟨hfirst, hrest⟩ := List.forall_mem_cons.mp h
      obtain ⟨counted, hpassed⟩ := verifyEntries_passed hfirst index verified
        (before ++ s :: after)
      rw [List.cons_append, hpassed, ih hrest, List.length_cons, Nat.add_assoc,
        Nat.add_comm 1 before.length]

theorem eq_of_true_of_none {x y : Option Bool} (htrue : x = some true ↔ y = some true)
    (hnone : x = none ↔ y = none) : x = y := by
  rcases x with _ | _ | _ <;> rcases y with _ | _ | _ <;> simp_all

def Agrees (t : Jws) (supplied : Option Bytes) : Prop :=
  ∀ payload, supplied = some payload → t.payload = [] ∨ payload = t.payload

theorem toOption_verify_of_not {t : Jws} {supplied : Option Bytes}
    (h : ¬(t.signatures ≠ [] ∧ t.Agrees supplied)) :
    (verify e t candidates supplied).toOption = none := by
  cases hverify : verify e t candidates supplied with
  | error error => rfl
  | ok found => exact absurd (agreeing_of_verify hverify) h

theorem verify_accepts_iff {t : Jws} {supplied : Option Bytes} :
    verify e t candidates supplied = .ok true ↔
      t.Agrees supplied ∧
      (∀ s ∈ t.signatures, Passed e candidates (t.payloadUsed supplied) s) ∧
      ∃ s ∈ t.signatures, entryAnswer e candidates (t.payloadUsed supplied) s = some true := by
  by_cases h : t.signatures ≠ [] ∧ t.Agrees supplied
  · rw [verify_eq_verifyEntries h.1 h.2, ← toOption_eq_some_iff, verifyEntries_accepts_iff]
    simp [h.2]
  · rw [← toOption_eq_some_iff, toOption_verify_of_not h]
    refine iff_of_false nofun fun ⟨hagrees, _, s, hs, _⟩ => h ⟨List.ne_nil_of_mem hs, hagrees⟩

theorem verify_fails_iff {t : Jws} {supplied : Option Bytes}
    (hunmixed : Unmixed e candidates (t.payloadUsed supplied) t.signatures) :
    (verify e t candidates supplied).toOption = none ↔
      ¬(t.signatures ≠ [] ∧ t.Agrees supplied) ∨
      ∃ s ∈ t.signatures, entryAnswer e candidates (t.payloadUsed supplied) s = none := by
  by_cases h : t.signatures ≠ [] ∧ t.Agrees supplied
  · rw [verify_eq_verifyEntries h.1 h.2, verifyEntries_fails_iff hunmixed]
    simp [h.1, h.2]
  · simp [toOption_verify_of_not h, h]

theorem verify_reordered (e : Engine (Except Error)) {t : Jws} {entries : List Signature}
    (hperm : t.signatures.Perm entries) (candidates : List Jwk) (supplied : Option Bytes) :
    (verify e t candidates supplied = .ok true ↔
      verify e { t with signatures := entries } candidates supplied = .ok true) ∧
    (Unmixed e candidates (t.payloadUsed supplied) t.signatures →
      (verify e t candidates supplied).toOption =
        (verify e { t with signatures := entries } candidates supplied).toOption) ∧
    ∀ before s after, t.signatures = before ++ s :: after → s.alg? = none →
      verify e t candidates supplied ≠ .ok true ∧
      (e.config.verifyAllSignatures = false →
        (verify e t candidates supplied).toOption = none) ∧
      (t.Agrees supplied →
        (∀ other ∈ before, Passed e candidates (t.payloadUsed supplied) other) →
        verify e t candidates supplied =
          .error (.missingAlgorithm s!"signature {before.length}")) := by
  have hpayload : ({ t with signatures := entries } : Jws).payloadUsed supplied =
      t.payloadUsed supplied := rfl
  have hagrees : ({ t with signatures := entries } : Jws).Agrees supplied ↔
      t.Agrees supplied := Iff.rfl
  have haccepts : verify e t candidates supplied = .ok true ↔
      verify e { t with signatures := entries } candidates supplied = .ok true := by
    simp only [verify_accepts_iff, hpayload, hagrees, hperm.mem_iff]
  refine ⟨haccepts, ?alike, ?missing⟩
  case alike =>
    intro hunmixed
    have hreordered : Unmixed e candidates (t.payloadUsed supplied) entries := by
      simpa only [Unmixed, hperm.mem_iff] using hunmixed
    have hnil : t.signatures = [] ↔ entries = [] := by
      rw [← List.perm_nil, hperm.congr_left, List.perm_nil]
    have hfails : (verify e t candidates supplied).toOption = none ↔
        (verify e { t with signatures := entries } candidates supplied).toOption = none := by
      rw [verify_fails_iff hunmixed, verify_fails_iff hreordered]
      simp only [hpayload, hagrees, hperm.mem_iff, ne_eq, hnil]
    rw [← toOption_eq_some_iff, ← toOption_eq_some_iff] at haccepts
    exact eq_of_true_of_none haccepts hfails
  case missing =>
    intro before s after hentries halg
    have hs : s ∈ t.signatures := by simp [hentries]
    have hanswer : entryAnswer e candidates (t.payloadUsed supplied) s = none :=
      entryAnswer_missing halg
    refine ⟨fun h => ?_, fun hany => ?_, fun hagrees hpassed => ?_⟩
    · obtain ⟨_, hpassed, _⟩ := verify_accepts_iff.mp h
      simpa [Passed, hanswer] using hpassed s hs
    · have hunmixed : Unmixed e candidates (t.payloadUsed supplied) t.signatures :=
        fun hall => absurd (hany.symm.trans hall) Bool.false_ne_true
      exact (verify_fails_iff hunmixed).mpr (.inr ⟨s, hs, hanswer⟩)
    · rw [verify_eq_verifyEntries (List.ne_nil_of_mem hs) hagrees, hentries,
        verifyEntries_reached hpassed halg, Nat.zero_add]

end

theorem verify_reordered_strays :
    verify (Engine.software { verifyAllSignatures := false } (.memory {}))
        (strayToken [Header.insertText {} "alg" "EdDSA", {}]) [detachedKey] (some [104, 105]) =
      .error (.missingAlgorithm "signature 1") ∧
    (verify (Engine.software { verifyAllSignatures := false } (.memory {}))
      (strayToken [{}, Header.insertText {} "alg" "EdDSA"]) [detachedKey]
      (some [104, 105])).toOption = none := by
  have hswapped : (strayToken [Header.insertText {} "alg" "EdDSA", {}]).signatures.Perm
      (strayToken [{}, Header.insertText {} "alg" "EdDSA"]).signatures := .swap ..
  obtain ⟨_, halike, hmissing⟩ := verify_reordered
    (Engine.software { verifyAllSignatures := false } (.memory {})) hswapped [detachedKey]
    (some [104, 105])
  obtain ⟨_, hfails, hreached⟩ := hmissing [strayEntry (Header.insertText {} "alg" "EdDSA")]
    (strayEntry {}) _ rfl rfl
  refine ⟨hreached (fun _ _ => .inl rfl) ?_, (halike nofun).symm.trans (hfails rfl)⟩
  intro s hs
  obtain rfl := List.mem_singleton.mp hs
  exact .inr ⟨rfl, by decide +kernel⟩

theorem not_verify_reordered :
    (¬ ∀ (config : Config) (store : KeyStore) (t : Jws) (entries : List Signature)
      (candidates : List Jwk) (supplied : Option Bytes), t.signatures.Perm entries →
      (verify (Engine.software config store) t candidates supplied).toOption =
        (verify (Engine.software config store) { t with signatures := entries } candidates
          supplied).toOption) ∧
    ¬ ∀ (config : Config) (store : KeyStore) (t : Jws) (candidates : List Jwk)
      (supplied : Option Bytes), (∃ s ∈ t.signatures, s.alg? = none) →
      ∃ place, verify (Engine.software config store) t candidates supplied =
        .error (.missingAlgorithm place) := by
  constructor
  · intro h
    have hsame := h {} (.memory {}) (strayToken [Header.insertText {} "alg" "EdDSA", {}])
      (strayToken [{}, Header.insertText {} "alg" "EdDSA"]).signatures [detachedKey]
      (some [104, 105]) (.swap ..)
    have hrefused : (verify (Engine.software {} (.memory {}))
        (strayToken [Header.insertText {} "alg" "EdDSA", {}]) [detachedKey]
        (some [104, 105])).toOption = some false := by
      decide +kernel
    have hfails : (verify (Engine.software {} (.memory {}))
        (strayToken [{}, Header.insertText {} "alg" "EdDSA"]) [detachedKey]
        (some [104, 105])).toOption = none := by
      decide +kernel
    exact absurd (hrefused.symm.trans (hsame.trans hfails)) nofun
  · intro h
    obtain ⟨place, hmissing⟩ := h {} (.memory {})
      (strayToken [Header.insertText {} "alg" "none", {}]) [detachedKey] (some [104, 105])
      ⟨strayEntry {}, by simp [strayToken], rfl⟩
    have hunknown : verify (Engine.software {} (.memory {}))
        (strayToken [Header.insertText {} "alg" "none", {}]) [detachedKey] (some [104, 105]) =
          .error (.unsupportedAlgorithm "none") := by
      decide +kernel
    rw [hmissing] at hunknown
    cases hunknown

end JoseTokens.Jws
