import JoseTokens.Proofs.Engine.Software
import JoseTokens.Token.Jws
import Mathlib.Data.List.Forall2

namespace JoseTokens

def OnlyMismatches {α : Type} (x : Except Error α) : Prop :=
  ∀ error, x = .error error → Jws.isMismatch error = true

section

variable {α β : Type}

theorem onlyMismatches_ok (a : α) : OnlyMismatches (.ok a) :=
  fun _ h => nomatch h

theorem onlyMismatches_error {error : Error} (h : Jws.isMismatch error = true) :
    OnlyMismatches (.error error : Except Error α) := by
  intro other heq
  cases heq
  exact h

theorem onlyMismatches_bind {x : Except Error α} {f : α → Except Error β} (h : OnlyMismatches x)
    (hf : ∀ a, OnlyMismatches (f a)) : OnlyMismatches (x.bind f) := by
  cases x with
  | ok a => exact hf a
  | error error =>
      intro other heq
      cases heq
      exact h error rfl

theorem onlyMismatches_map {x : Except Error α} (f : α → β) (h : OnlyMismatches x) :
    OnlyMismatches (x.map f) := by
  cases x with
  | ok a => exact onlyMismatches_ok _
  | error error =>
      intro other heq
      cases heq
      exact h error rfl

end

theorem onlyMismatches_requireCurve (wanted : Curve) (name : String) :
    OnlyMismatches (requireCurve wanted name) := by
  rw [requireCurve]
  split
  · exact onlyMismatches_ok _
  · exact onlyMismatches_error rfl

theorem onlyMismatches_ecPoint (key : EcPublic) : OnlyMismatches key.point := by
  refine onlyMismatches_bind (onlyMismatches_requireCurve _ _) fun _ => ?_
  split
  · exact onlyMismatches_error rfl
  · split
    · exact onlyMismatches_ok _
    · exact onlyMismatches_error rfl

theorem onlyMismatches_scalar (key : EcPublic) (d : Bytes) : OnlyMismatches (key.scalar d) := by
  refine onlyMismatches_bind (onlyMismatches_requireCurve _ _) fun _ => ?_
  split
  · exact onlyMismatches_ok _
  · exact onlyMismatches_error rfl

theorem onlyMismatches_okpPoint (key : OkpPublic) : OnlyMismatches key.point := by
  refine onlyMismatches_bind (onlyMismatches_requireCurve _ _) fun _ => ?_
  split
  · exact onlyMismatches_error rfl
  · split
    · exact onlyMismatches_ok _
    · exact onlyMismatches_error rfl

theorem onlyMismatches_seed (key : OkpPublic) (d : Bytes) : OnlyMismatches (key.seed d) := by
  refine onlyMismatches_bind (onlyMismatches_requireCurve _ _) fun _ => ?_
  split
  · exact onlyMismatches_error rfl
  · exact onlyMismatches_ok _

theorem onlyMismatches_numbers (key : RsaPublic) : OnlyMismatches key.numbers := by
  rw [RsaPublic.numbers]
  split
  · exact onlyMismatches_ok _
  · exact onlyMismatches_error rfl

theorem onlyMismatches_privateNumbers (key : RsaPublic) (secret : RsaSecret) :
    OnlyMismatches (key.privateNumbers secret) := by
  rw [RsaPublic.privateNumbers]
  split
  · exact onlyMismatches_ok _
  · exact onlyMismatches_error rfl

namespace Software

theorem onlyMismatches_checkMaterial (material : Material) :
    OnlyMismatches (checkMaterial material) := by
  cases material with
  | ec shown d =>
      cases d with
      | none => exact onlyMismatches_map _ (onlyMismatches_ecPoint shown)
      | some d => exact onlyMismatches_map _ (onlyMismatches_scalar shown d)
  | rsa shown secret =>
      cases secret with
      | none => exact onlyMismatches_map _ (onlyMismatches_numbers shown)
      | some secret => exact onlyMismatches_map _ (onlyMismatches_privateNumbers shown secret)
  | okp shown d =>
      cases d with
      | none => exact onlyMismatches_map _ (onlyMismatches_okpPoint shown)
      | some d => exact onlyMismatches_map _ (onlyMismatches_seed shown d)
  | oct k =>
      rw [checkMaterial]
      split
      · exact onlyMismatches_error rfl
      · exact onlyMismatches_ok _

theorem onlyMismatches_checkCurve (binding : KeyBinding) (key : Jwk) :
    OnlyMismatches (checkCurve binding key) := by
  rw [checkCurve]
  split
  · exact onlyMismatches_requireCurve _ _
  · exact onlyMismatches_ok _

theorem onlyMismatches_importKey (binding : KeyBinding) (key : Jwk) (extractable : Bool) :
    OnlyMismatches (importKey binding key extractable) := by
  rw [importKey]
  split
  · exact onlyMismatches_error rfl
  · exact onlyMismatches_bind (onlyMismatches_checkMaterial _) fun _ =>
      onlyMismatches_bind (onlyMismatches_checkCurve _ _) fun _ => onlyMismatches_ok _

end Software

namespace Algorithm

theorem onlyMismatches_bindKey {a : Algorithm} (h : a.needs?.isSome) (key : Jwk) :
    OnlyMismatches (a.bind key) := by
  rw [bind]
  split
  next hneeds =>
    rw [hneeds] at h
    cases h
  next =>
    split
    · exact onlyMismatches_error rfl
    · split
      · exact onlyMismatches_error rfl
      · exact onlyMismatches_ok _

theorem onlyMismatches_checkKey {a : Algorithm} (h : a.needs?.isSome) (key : Jwk) :
    OnlyMismatches (a.checkKey key) :=
  onlyMismatches_bind (onlyMismatches_bindKey h key) fun _ =>
    onlyMismatches_map _ (Software.onlyMismatches_importKey _ _ _)

theorem keyedHash_ok {hash : HashName} (h : hash ≠ .sha1) (key data : Bytes) :
    keyedHash hash key data = .ok (hash.hmac key data) := by
  rw [keyedHash, if_neg h]

theorem onlyMismatches_verify {a : Algorithm} {id : String} (h : a.id? = some id) (key : Jwk)
    (signature data : Bytes) : OnlyMismatches (a.verify key signature data) := by
  unfold verify
  split
  next shown _ _ =>
    exact onlyMismatches_bind (onlyMismatches_ecPoint shown) fun _ => onlyMismatches_ok _
  next shown _ _ =>
    exact onlyMismatches_bind (onlyMismatches_okpPoint shown) fun _ => onlyMismatches_ok _
  next hash shown _ _ =>
    have hhash : hash ≠ .sha1 := by
      rintro rfl
      cases h
    refine onlyMismatches_bind ?_ fun _ =>
      onlyMismatches_bind (onlyMismatches_numbers shown) fun _ => onlyMismatches_ok _
    rw [requireSignatureHash, if_neg hhash]
    exact onlyMismatches_ok _
  next hash k _ =>
    have hhash : hash ≠ .sha1 := by
      rintro rfl
      cases h
    rw [keyedHash_ok hhash]
    exact onlyMismatches_ok _
  next => exact onlyMismatches_error rfl

end Algorithm

namespace Jws

def accepts (e : Engine (Except Error)) (alg : String) (signature input : Bytes) (key : Jwk) :
    Bool :=
  match e.verify alg key signature input with
  | .ok found => found
  | .error _ => false

theorem accepts_iff (e : Engine (Except Error)) (alg : String) (signature input : Bytes)
    (key : Jwk) :
    accepts e alg signature input key = true ↔ e.verify alg key signature input = .ok true := by
  rw [accepts]
  cases e.verify alg key signature input with
  | ok found => simp
  | error error => simp

theorem matchesSome_onlyMismatches {e : Engine (Except Error)} {alg : String}
    {signature input : Bytes} (h : ∀ key, OnlyMismatches (e.verify alg key signature input))
    (candidates : List Jwk) :
    matchesSome e alg signature input candidates =
      .ok (candidates.any (accepts e alg signature input)) := by
  induction candidates with
  | nil => rfl
  | cons key candidates ih =>
      have hkey := h key
      rw [matchesSome, ih, List.any_cons, accepts]
      cases hverify : e.verify alg key signature input with
      | ok found => cases found <;> rfl
      | error error =>
          have hmismatch := hkey error hverify
          simp [tryCatch, tryCatchThe, MonadExceptOf.tryCatch, Except.tryCatch, hmismatch, bind,
            Except.bind, pure, Except.pure]

theorem matchesSome_error {e : Engine (Except Error)} {alg : String} {signature input : Bytes}
    {key : Jwk} {error : Error} (h : e.verify alg key signature input = .error error)
    (hother : isMismatch error = false) (candidates : List Jwk) :
    matchesSome e alg signature input (key :: candidates) = .error error := by
  rw [matchesSome, h]
  simp [tryCatch, tryCatchThe, MonadExceptOf.tryCatch, Except.tryCatch, hother, bind,
    Except.bind, throw, throwThe, MonadExceptOf.throw]

theorem verify_software_keyed {alg : String} {a : Algorithm} (ha : Algorithm.ofId alg = .ok a)
    (hneeds : a.needs?.isSome) (config : Config) (store : KeyStore) (key : Jwk)
    (signature input : Bytes) :
    OnlyMismatches ((Engine.software config store).verify alg key signature input) := by
  rw [Engine.verify_software, ha]
  change OnlyMismatches ((a.checkKey key).bind fun _ => a.verify key signature input)
  exact onlyMismatches_bind (Algorithm.onlyMismatches_checkKey hneeds key) fun _ =>
    Algorithm.onlyMismatches_verify (Algorithm.id?_ofId ha) key signature input

theorem verify_software_keyless {alg : String}
    (h : ∀ a, Algorithm.ofId alg = .ok a → a.needs? = none) (config : Config) (store : KeyStore) :
    ∃ error, isMismatch error = false ∧ ∀ key signature input,
      (Engine.software config store).verify alg key signature input = .error error := by
  cases halg : Algorithm.ofId alg with
  | error error =>
      refine ⟨error, ?_, fun key signature input => ?_⟩
      · unfold Algorithm.ofId at halg
        split at halg
        · split at halg <;> cases halg <;> rfl
        · split at halg <;> cases halg
          rfl
      · rw [Engine.verify_software, halg]
        rfl
  | ok a =>
      refine ⟨.invalidArgument .keyForDigest, rfl, fun key signature input => ?_⟩
      rw [Engine.verify_software, halg]
      simp only [Except.bind, Algorithm.checkKey, Algorithm.bind, h a halg]

theorem verify_software_cases (config : Config) (store : KeyStore) (alg : String) :
    (∃ error, isMismatch error = false ∧ ∀ key signature input,
      (Engine.software config store).verify alg key signature input = .error error) ∨
    (∀ key signature input,
      OnlyMismatches ((Engine.software config store).verify alg key signature input)) := by
  by_cases hkeyless : ∀ a, Algorithm.ofId alg = .ok a → a.needs? = none
  · exact .inl (verify_software_keyless hkeyless config store)
  · push Not at hkeyless
    obtain ⟨a, ha, hneeds⟩ := hkeyless
    exact .inr (verify_software_keyed ha (Option.isSome_iff_ne_none.mpr hneeds) config store)

theorem matchesSome_software_iff (config : Config) (store : KeyStore) (alg : String)
    (signature input : Bytes) (candidates : List Jwk) :
    matchesSome (Engine.software config store) alg signature input candidates = .ok true ↔
      ∃ key ∈ candidates,
        (Engine.software config store).verify alg key signature input = .ok true := by
  rcases verify_software_cases config store alg with ⟨error, hother, herror⟩ | honly
  · constructor
    · intro h
      cases candidates with
      | nil => cases h
      | cons key candidates =>
          rw [matchesSome_error (herror key signature input) hother] at h
          cases h
    · intro ⟨key, _, hkey⟩
      rw [herror] at hkey
      cases hkey
  · rw [matchesSome_onlyMismatches (honly · signature input), Except.ok.injEq, List.any_eq_true]
    simp only [accepts_iff]

def payloadUsed (t : Jws) (supplied : Option Bytes) : Bytes :=
  if t.payload = [] then supplied.getD [] else t.payload

theorem payloadFor_agreeing {t : Jws} {supplied : Option Bytes}
    (h : ∀ payload, supplied = some payload → t.payload = [] ∨ payload = t.payload) :
    t.payloadFor supplied = .ok (t.payloadUsed supplied) := by
  cases supplied with
  | none => simp [payloadFor, payloadUsed]
  | some payload =>
      rcases h payload rfl with hempty | rfl
      · simp [payloadFor, payloadUsed, hempty]
      · simp [payloadFor, payloadUsed]

def EntryVerified (e : Engine (Except Error)) (candidates : List Jwk) (payload : Bytes)
    (s : Signature) : Prop :=
  ∃ alg, s.alg? = some alg ∧ ∃ key ∈ candidates,
    e.verify alg key s.signature (signingInput s.protectedHeader payload) = .ok true

theorem verifyEntries_cons {e : Engine (Except Error)} {s : Signature} {alg : String}
    (halg : s.alg? = some alg) (candidates : List Jwk) (payload : Bytes) (index verified : Nat)
    (rest : List Signature) :
    verifyEntries e candidates payload index verified (s :: rest) =
      (matchesSome e alg s.signature (signingInput s.protectedHeader payload) candidates).bind
        fun found =>
          if found then verifyEntries e candidates payload (index + 1) (verified + 1) rest
          else if e.config.verifyAllSignatures then .ok false
          else verifyEntries e candidates payload (index + 1) verified rest := by
  rw [verifyEntries, halg]
  rfl

theorem verifyEntries_missing {e : Engine (Except Error)} {s : Signature} (halg : s.alg? = none)
    (candidates : List Jwk) (payload : Bytes) (index verified : Nat) (rest : List Signature) :
    verifyEntries e candidates payload index verified (s :: rest) =
      .error (.missingAlgorithm s!"signature {index}") := by
  rw [verifyEntries, halg]
  rfl

theorem entryVerified_iff {config : Config} {store : KeyStore} {s : Signature} {alg : String}
    (halg : s.alg? = some alg) (candidates : List Jwk) (payload : Bytes) :
    EntryVerified (Engine.software config store) candidates payload s ↔
      matchesSome (Engine.software config store) alg s.signature
        (signingInput s.protectedHeader payload) candidates = .ok true := by
  simp [EntryVerified, halg, matchesSome_software_iff]

theorem verifyEntries_verified {config : Config} {store : KeyStore} {candidates : List Jwk}
    {payload : Bytes} {entries : List Signature}
    (h : ∀ s ∈ entries, EntryVerified (Engine.software config store) candidates payload s)
    (index verified : Nat) :
    verifyEntries (Engine.software config store) candidates payload index verified entries =
      .ok (decide (0 < verified + entries.length)) := by
  induction entries generalizing index verified with
  | nil => rfl
  | cons s entries ih =>
      obtain ⟨hentry, hrest⟩ := List.forall_mem_cons.mp h
      obtain ⟨alg, halg, _⟩ := id hentry
      have hfound := (entryVerified_iff halg candidates payload).mp hentry
      have hcount : verified + 1 + entries.length = verified + (entries.length + 1) := by omega
      rw [verifyEntries_cons halg, hfound]
      simp only [Except.bind, if_true, ih hrest, List.length_cons, hcount]

theorem verifyEntries_all_iff {config : Config} (hall : config.verifyAllSignatures = true)
    (store : KeyStore) (candidates : List Jwk) (payload : Bytes) (index verified : Nat)
    (entries : List Signature) :
    verifyEntries (Engine.software config store) candidates payload index verified entries =
        .ok true ↔
      (0 < verified ∨ entries ≠ []) ∧
        ∀ s ∈ entries, EntryVerified (Engine.software config store) candidates payload s := by
  induction entries generalizing index verified with
  | nil => simp [verifyEntries, pure, Except.pure]
  | cons s entries ih =>
      rw [List.forall_mem_cons]
      cases halg : s.alg? with
      | none => simp [verifyEntries_missing halg, EntryVerified, halg]
      | some alg =>
          have hconfig : (Engine.software config store).config.verifyAllSignatures = true := hall
          rw [verifyEntries_cons halg, entryVerified_iff halg]
          cases matchesSome (Engine.software config store) alg s.signature
              (signingInput s.protectedHeader payload) candidates with
          | error error => simp [Except.bind]
          | ok found =>
              cases found with
              | true => simp [Except.bind, ih]
              | false => simp [Except.bind, hconfig]

theorem verify_eq_verifyEntries {e : Engine (Except Error)} {t : Jws} {supplied : Option Bytes}
    (hsome : t.signatures ≠ [])
    (hpayload : ∀ payload, supplied = some payload → t.payload = [] ∨ payload = t.payload)
    (candidates : List Jwk) :
    verify e t candidates supplied =
      verifyEntries e candidates (t.payloadUsed supplied) 0 0 t.signatures := by
  have hempty : t.signatures.isEmpty = false := by simpa using hsome
  rw [verify, payloadFor_agreeing hpayload]
  simp only [hempty]
  rfl

theorem verify_verified {config : Config} {store : KeyStore} {t : Jws} {candidates : List Jwk}
    {supplied : Option Bytes} (hsome : t.signatures ≠ [])
    (hsupplied : supplied = none ∨ supplied = some t.payload)
    (h : ∀ s ∈ t.signatures,
      EntryVerified (Engine.software config store) candidates t.payload s) :
    verify (Engine.software config store) t candidates supplied = .ok true := by
  have hpayload : ∀ payload, supplied = some payload → t.payload = [] ∨ payload = t.payload := by
    rintro payload rfl
    rcases hsupplied with hsupplied | hsupplied
    · cases hsupplied
    · exact .inr (Option.some.inj hsupplied)
  have hused : t.payloadUsed supplied = t.payload := by
    rcases hsupplied with rfl | rfl <;> simp +contextual [payloadUsed]
  rw [verify_eq_verifyEntries hsome hpayload, hused, verifyEntries_verified h]
  simp [List.length_pos_iff.mpr hsome]

theorem verify_all_iff {config : Config} (hall : config.verifyAllSignatures = true)
    (store : KeyStore) {t : Jws} (hsome : t.signatures ≠ []) (candidates : List Jwk)
    {supplied : Option Bytes}
    (hpayload : ∀ payload, supplied = some payload → t.payload = [] ∨ payload = t.payload) :
    (verify (Engine.software config store) t candidates supplied = .ok true ↔
      ∀ s ∈ t.signatures, ∃ alg, s.alg? = some alg ∧ ∃ key ∈ candidates,
        (Engine.software config store).verify alg key s.signature
          (Bytes.ofText (s.protectedHeader.encoded ++ "." ++
            Base64Url.encode (t.payloadUsed supplied))) = .ok true) ∧
    (verify (Engine.software config store) t candidates supplied = .ok true →
      ∀ before, verify (Engine.software config store) t (before ++ candidates) supplied =
        .ok true) := by
  have hiff (candidates : List Jwk) :
      verify (Engine.software config store) t candidates supplied = .ok true ↔
        ∀ s ∈ t.signatures, EntryVerified (Engine.software config store) candidates
          (t.payloadUsed supplied) s := by
    rw [verify_eq_verifyEntries hsome hpayload, verifyEntries_all_iff hall]
    simp [hsome]
  refine ⟨hiff candidates, fun h before => ?_⟩
  refine (hiff (before ++ candidates)).mpr fun s hs => ?_
  obtain ⟨alg, halg, key, hkey, hverify⟩ := (hiff candidates).mp h s hs
  exact ⟨alg, halg, key, List.mem_append_right before hkey, hverify⟩

def detachedKey : Jwk :=
  Jwk.oct [7, 7, 7, 7]

def detachedToken (header : Header) : Jws where
  signatures := [{
    protectedHeader := ⟨Header.insertText {} "alg" "HS256", "eyJhbGciOiJIUzI1NiJ9"⟩
    header
    signature := [
      10, 8, 70, 208, 25, 239, 93, 103, 112, 153, 139, 80, 191, 131, 124, 20,
      214, 161, 59, 64, 127, 159, 8, 55, 197, 52, 82, 233, 237, 134, 173, 170] }]

theorem verify_all_detached :
    verify (Engine.software {} (.memory {})) (detachedToken {}) [Jwk.oct [1], detachedKey]
      (some [104, 105]) = .ok true := by
  refine (verify_all_iff rfl _ (by simp [detachedToken]) _ fun _ _ => .inl rfl).1.mpr ?_
  intro s hs
  obtain rfl := List.mem_singleton.mp hs
  exact ⟨"HS256", by decide, detachedKey, by simp, by decide +kernel⟩

structure SameAlgorithm (a b : Signature) : Prop where
  protectedHeader : a.protectedHeader = b.protectedHeader
  signature : a.signature = b.signature
  alg : a.alg? = b.alg?

section

variable {m : Type → Type} [Monad m] [MonadExceptOf Error m]

theorem verifyEntries_sameAlgorithm (e : Engine m) (candidates : List Jwk) (payload : Bytes)
    {as bs : List Signature} (h : List.Forall₂ SameAlgorithm as bs) (index verified : Nat) :
    verifyEntries e candidates payload index verified as =
      verifyEntries e candidates payload index verified bs := by
  induction h generalizing index verified with
  | nil => rfl
  | cons hentry _ ih =>
      rw [verifyEntries, verifyEntries, hentry.protectedHeader, hentry.signature, hentry.alg]
      simp only [ih]

theorem verify_sameAlgorithm (e : Engine m) {t u : Jws} (hpayload : t.payload = u.payload)
    (h : List.Forall₂ SameAlgorithm t.signatures u.signatures) (candidates : List Jwk)
    (supplied : Option Bytes) :
    verify e t candidates supplied = verify e u candidates supplied := by
  have hfor : t.payloadFor supplied = u.payloadFor supplied := by
    cases supplied <;> simp only [payloadFor, hpayload]
  have hempty : t.signatures.isEmpty = u.signatures.isEmpty := by
    rw [Bool.eq_iff_iff, ← List.length_eq_zero_iff.trans List.isEmpty_iff.symm,
      ← List.length_eq_zero_iff.trans List.isEmpty_iff.symm, h.length_eq]
  rw [verify, verify, hempty, hfor]
  simp only [verifyEntries_sameAlgorithm e candidates _ h]

theorem verify_sameAlgorithm_annotated :
    verify (Engine.software {} (.memory {})) (detachedToken {}) [detachedKey] (some [104, 105]) =
      verify (Engine.software {} (.memory {}))
        (detachedToken (Header.ofPairs [("kid", .string "other"), ("alg", .int 5)]))
        [detachedKey] (some [104, 105]) :=
  verify_sameAlgorithm _ rfl (.cons ⟨rfl, rfl, by decide⟩ .nil) _ _

theorem not_verify_sameProtected :
    ¬ ∀ (config : Config) (store : KeyStore) (t u : Jws) (candidates : List Jwk)
      (supplied : Option Bytes),
      (∀ s ∈ t.signatures, s.protectedHeader.header.alg?.isSome) → t.payload = u.payload →
      List.Forall₂ (fun a b => a.protectedHeader = b.protectedHeader ∧ a.signature = b.signature)
        t.signatures u.signatures →
      verify (Engine.software config store) t candidates supplied =
        verify (Engine.software config store) u candidates supplied := by
  intro h
  have hequal := h {} (.memory {}) (detachedToken {})
    (detachedToken (Header.insertText {} "alg" "none")) [detachedKey] (some [104, 105])
    (by decide) rfl (.cons ⟨rfl, rfl⟩ .nil)
  have hsigned : verify (Engine.software {} (.memory {})) (detachedToken {}) [detachedKey]
      (some [104, 105]) = .ok true := by
    decide +kernel
  have hnone : verify (Engine.software {} (.memory {}))
      (detachedToken (Header.insertText {} "alg" "none")) [detachedKey] (some [104, 105]) =
        .error (.unsupportedAlgorithm "none") := by
    decide +kernel
  rw [hsigned, hnone] at hequal
  cases hequal

end

end Jws

end JoseTokens
