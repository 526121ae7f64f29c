import JoseTokens.Engine.Operations
import JoseTokens.Proofs.Outcome

namespace JoseTokens

namespace Registry

def supportedPairs : List (Capability × String) :=
  (Algorithm.supported.flatMap (·.2)).filterMap fun id =>
    (Capability.ofName? id).map fun c => (c, id)

variable {m : Type → Type}

def pairEntry (adapter : Adapter m) (pair : Capability × String) (scope : Scope) : Entry m :=
  ⟨pair.1, pair.2, ⟨adapter, scope, [.key, .secret]⟩⟩

theorem mem_foldl_register (adapter : Adapter m) (pairs : List (Capability × String))
    (r : Registry m) (entry : Entry m) :
    entry ∈ (pairs.foldl (fun r (capability, id) =>
      [Scope.inHand, Scope.kept].foldl (fun r scope =>
        r.register capability id ⟨adapter, scope, [.key, .secret]⟩) r) r).entries ↔
      (∃ pair ∈ pairs, ∃ scope, entry = pairEntry adapter pair scope) ∨ entry ∈ r.entries := by
  induction pairs generalizing r with
  | nil => simp
  | cons pair pairs ih =>
      rw [List.foldl_cons, ih]
      simp only [List.foldl_cons, List.foldl_nil, register, List.mem_cons, exists_eq_or_imp]
      constructor
      · rintro (h | h | h | h)
        · exact .inl (.inr h)
        · exact .inl (.inl ⟨.kept, h⟩)
        · exact .inl (.inl ⟨.inHand, h⟩)
        · exact .inr h
      · rintro ((⟨scope, h⟩ | h) | h)
        · cases scope with
          | inHand => exact .inr (.inr (.inl h))
          | kept => exact .inr (.inl h)
        · exact .inl h
        · exact .inr (.inr (.inr h))

theorem mem_ofAdapter (adapter : Adapter m) (entry : Entry m) :
    entry ∈ (ofAdapter adapter).entries ↔
      ∃ pair ∈ supportedPairs, ∃ scope, entry = pairEntry adapter pair scope := by
  rw [ofAdapter, mem_foldl_register]
  simp [supportedPairs]

theorem resolve_ofAdapter (adapter : Adapter m) {capability : Capability} {id : String}
    (h : (capability, id) ∈ supportedPairs) (scope : Scope) (reference : Option Reference) :
    (ofAdapter adapter).resolve capability id scope reference = .ok adapter := by
  have hentry : pairEntry adapter (capability, id) scope ∈ (ofAdapter adapter).entries :=
    (mem_ofAdapter adapter _).mpr ⟨_, h, scope, rfl⟩
  have hserves : (pairEntry adapter (capability, id) scope).registration.serves scope
      reference = true := by
    cases reference with
    | none => cases scope <;> rfl
    | some reference =>
        obtain ⟨name, storage, remote⟩ := reference
        cases scope <;> cases storage <;> rfl
  rw [resolve, lookup?]
  cases hfound : (ofAdapter adapter).entries.find? fun entry =>
      entry.capability == capability && entry.algorithm == id &&
        entry.registration.serves scope reference with
  | none =>
      have hmiss := List.find?_eq_none.mp hfound _ hentry
      rw [hserves] at hmiss
      simp [pairEntry] at hmiss
  | some entry =>
      obtain ⟨pair, _, scope, rfl⟩ :=
        (mem_ofAdapter adapter entry).mp (List.mem_of_find?_eq_some hfound)
      rfl

end Registry

namespace Algorithm

theorem supported_of_id? (a : Algorithm) :
    ∀ id ∈ a.id?, (a.capability, id) ∈ Registry.supportedPairs := by
  cases a with
  | ecdsa curve hash => cases curve <;> cases hash <;> decide
  | eddsa curve => cases curve <;> decide
  | rsaSignature hash => cases hash <;> decide
  | rsaOaep hash => cases hash <;> decide
  | hmac hash => cases hash <;> decide
  | digest hash => cases hash <;> decide
  | aesGcm bits iv aad tagBits =>
      intro id h
      have hcapability : (aesGcm bits iv aad tagBits).capability = .symmetricEncrypter := rfl
      rw [hcapability]
      simp only [id?] at h
      split at h
      · cases h
        decide
      split at h
      · cases h
        decide
      split at h
      · cases h
        decide
      · cases h

theorem id?_plain {id : String} {a : Algorithm} (h : plain? id = some a) : a.id? = some id := by
  unfold plain? at h
  split at h <;> cases h <;> rfl

theorem id?_aesGcm {id : String} {bits : Nat} (h : contentBits? id = some bits)
    (iv aad : Bytes) (tagLength : Nat) : (aesGcm bits iv aad tagLength).id? = some id := by
  simp only [contentBits?] at h
  split at h
  next hid => cases h; exact congrArg some hid.symm
  split at h
  next hid => cases h; exact congrArg some hid.symm
  split at h
  next hid => cases h; exact congrArg some hid.symm
  next => cases h

theorem id?_ofId {id : String} {inputs : CipherInputs} {a : Algorithm}
    (h : ofId id inputs = .ok a) : a.id? = some id := by
  unfold ofId at h
  split at h
  next bits hbits =>
    split at h
    · cases h
    · cases h
    · cases h
      exact id?_aesGcm hbits _ _ _
  next =>
    split at h
    next a hplain =>
      cases h
      exact id?_plain hplain
    · cases h

theorem resolveFor_ofAdapter {m : Type → Type} (adapter : Adapter m) {a : Algorithm} {id : String}
    (h : a.id? = some id) (scope : Scope) (reference : Option Reference) :
    (Registry.ofAdapter adapter).resolveFor a scope reference = .ok adapter := by
  rw [Registry.resolveFor, toId, h]
  exact Registry.resolve_ofAdapter adapter (supported_of_id? a id h) scope reference

def checkKey (a : Algorithm) (key : Jwk) : Except Error Unit :=
  (a.bind key).bind fun binding => (Software.importKey binding key true).map fun _ => ()

end Algorithm

theorem liftResult_except {α : Type} (x : Except Error α) :
    (liftResult x : Except Error α) = x := by
  cases x with
  | ok a => rfl
  | error e => rfl

theorem Software.importKey_eq (binding : KeyBinding) (key : Jwk) (extractable : Bool) :
    importKey binding key extractable =
      (importKey binding key true).map fun _ => { binding, key, extractable } := by
  simp only [importKey]
  split
  · rfl
  · cases checkMaterial key.material with
    | error e => rfl
    | ok _ => cases checkCurve binding key <;> rfl

namespace Engine

variable (config : Config) (store : KeyStore)

abbrev software : Engine (Except Error) :=
  withSoftware config store

variable {config store}

theorem prepare_software {a : Algorithm} {id : String} (h : a.id? = some id) (key : Jwk)
    (scope : Scope) (reference : Option Reference) :
    (software config store).prepare a key scope reference =
      (a.bind key).bind fun binding => (Software.importKey binding key true).map fun _ =>
        (.software, ⟨binding, key, scope == .inHand⟩) := by
  have hresolve : (software config store).registry.resolveFor a scope reference =
      .ok .software := Algorithm.resolveFor_ofAdapter _ h scope reference
  rw [prepare, hresolve, liftResult_except, liftResult_except]
  cases a.bind key with
  | error e => rfl
  | ok binding =>
      have himport : (Adapter.software (m := Except Error)).importKey binding key
          (scope == .inHand) = Software.importKey binding key (scope == .inHand) :=
        liftResult_except _
      rw [Software.importKey_eq] at himport
      simp only [bind, Except.bind, himport]
      cases Software.importKey binding key true <;> rfl

theorem prepare_bind {β : Type} {a : Algorithm} {id : String} (h : a.id? = some id)
    (key : Jwk) (scope : Scope) (reference : Option Reference)
    (use : Adapter (Except Error) × ImportedKey → Except Error β) (result : Except Error β)
    (huse : ∀ binding extractable, use (.software, ⟨binding, key, extractable⟩) = result) :
    ((software config store).prepare a key scope reference).bind use =
      (a.checkKey key).bind fun _ => result := by
  rw [prepare_software h, Algorithm.checkKey]
  cases a.bind key with
  | error e => rfl
  | ok binding =>
      cases himport : Software.importKey binding key true with
      | error e => simp [Except.bind, Except.map, himport]
      | ok imported => simpa [Except.bind, Except.map, himport] using huse binding _

theorem verify_software (id : String) (key : Jwk) (signature data : Bytes) :
    (software config store).verify id key signature data =
      (Algorithm.ofId id).bind fun a => (a.checkKey key).bind fun _ =>
        a.verify key signature data := by
  rw [verify, liftResult_except]
  cases ha : Algorithm.ofId id with
  | error e => rfl
  | ok a =>
      exact prepare_bind (Algorithm.id?_ofId ha) key .inHand none _ _
        fun _ _ => liftResult_except _

theorem signKept_software {a : Algorithm} {id : String} (h : a.id? = some id) (key : Jwk)
    (reference : Reference) (data : Bytes) :
    (software config store).signKept a key reference data =
      (a.checkKey key).bind fun _ => a.sign key data :=
  prepare_bind h key .kept (some reference) _ _ fun _ _ => liftResult_except _

theorem encrypt_software {a : Algorithm} {id : String} (h : a.id? = some id) (key : Jwk)
    (entropy : Entropy) (data : Bytes) :
    (software config store).encrypt a key entropy data =
      (a.checkKey key).bind fun _ => a.encrypt key entropy data :=
  prepare_bind h key .inHand none _ _ fun _ _ => liftResult_except _

theorem encryptForKey_software (id : String) (key : Jwk) (entropy : Entropy) (data : Bytes) :
    (software config store).encryptForKey id key entropy data =
      (Algorithm.ofId id).bind fun a => (a.checkKey key).bind fun _ =>
        a.encrypt key entropy data := by
  rw [encryptForKey, liftResult_except]
  cases ha : Algorithm.ofId id with
  | error e => rfl
  | ok a => exact encrypt_software (Algorithm.id?_ofId ha) key entropy data

theorem decrypt_software {a : Algorithm} {id : String} (h : a.id? = some id) (key : Jwk)
    (data : Bytes) :
    (software config store).decrypt a key data =
      (a.checkKey key).bind fun _ => a.decrypt key data :=
  prepare_bind h key .inHand none _ _ fun _ _ => liftResult_except _

theorem decryptKept_software {a : Algorithm} {id : String} (h : a.id? = some id) (key : Jwk)
    (reference : Reference) (data : Bytes) :
    (software config store).decryptKept a key reference data =
      (a.checkKey key).bind fun _ => a.decrypt key data :=
  prepare_bind h key .kept (some reference) _ _ fun _ _ => liftResult_except _

end Engine

end JoseTokens
