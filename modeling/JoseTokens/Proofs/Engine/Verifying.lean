import JoseTokens.Proofs.Key.Halves
import JoseTokens.Proofs.Token.Verification

namespace JoseTokens

inductive Material.Checks : Material → Prop
  | ec (shown : EcPublic) : Checks (.ec shown none)
  | rsa (shown : RsaPublic) : Checks (.rsa shown none)
  | okp (shown : OkpPublic) : Checks (.okp shown none)
  | oct (k : Bytes) : Checks (.oct k)

theorem Jwk.checks_iff {key : Jwk} :
    key.material.Checks ↔ key.isPrivate = false ∨ key.isSymmetric = true := by
  obtain ⟨labels, material⟩ := key
  constructor
  · intro h
    cases h with
    | oct k => exact .inr rfl
    | _ => exact .inl rfl
  · rcases material with ⟨shown, _ | d⟩ | ⟨shown, _ | secret⟩ | ⟨shown, _ | d⟩ | k
    · exact fun _ => .ec shown
    · rintro (h | h) <;> cases h
    · exact fun _ => .rsa shown
    · rintro (h | h) <;> cases h
    · exact fun _ => .okp shown
    · rintro (h | h) <;> cases h
    · exact fun _ => .oct k

namespace Algorithm

def Signs (a : Algorithm) : Prop :=
  a.capability = .messageSigner ∨ a.capability = .macSigner

theorem verify_unsigning {a : Algorithm} (h : ¬ a.Signs) (key : Jwk) (signature data : Bytes) :
    a.verify key signature data = .error (a.cannotSign key "verify") := by
  cases a with
  | ecdsa curve hash => exact absurd (.inl rfl) h
  | eddsa curve => exact absurd (.inl rfl) h
  | rsaSignature hash => exact absurd (.inl rfl) h
  | hmac hash => exact absurd (.inr rfl) h
  | rsaOaep hash => rfl
  | aesGcm bits iv aad tagBits => rfl
  | digest hash => rfl

theorem needs_of_bind {a : Algorithm} {key : Jwk} {binding : KeyBinding}
    (h : a.bind key = .ok binding) : ∃ curve, a.needs? = some (key.keyType, curve) := by
  rw [bind] at h
  split at h
  · cases h
  next keyType curve hneeds =>
    split at h
    · cases h
    next hsame => exact ⟨curve, by rw [hneeds, not_not.mp hsame]⟩

theorem verify_of_imported {a : Algorithm} {id : String} {key : Jwk} {curve : Option Curve}
    (hid : a.id? = some id) (hsigns : a.Signs) (hkey : key.material.Checks)
    (hneeds : a.needs? = some (key.keyType, curve))
    (hcheck : Software.checkMaterial key.material = .ok ()) (signature data : Bytes) :
    ∃ answer, a.verify key signature data = .ok answer := by
  -- In each case what the import has read is what the check of a signature reads of the key.
  obtain ⟨labels, material⟩ := key
  cases hkey with
  | ec shown =>
      obtain ⟨q, hq⟩ := map_unit_eq_ok_iff.mp hcheck
      cases a with
      | ecdsa curve hash =>
          refine ⟨Secp256k1.verify q signature data, ?_⟩
          simp only [verify, hq]
          rfl
      | _ => cases hneeds
  | okp shown =>
      obtain ⟨q, hq⟩ := map_unit_eq_ok_iff.mp hcheck
      cases a with
      | eddsa curve =>
          refine ⟨Ed25519.verify shown.x q signature data, ?_⟩
          simp only [verify, hq]
          rfl
      | _ => cases hneeds
  | rsa shown =>
      obtain ⟨numbers, hnumbers⟩ := map_unit_eq_ok_iff.mp hcheck
      cases a with
      | rsaSignature hash =>
          cases hash with
          | sha1 => cases hid
          | _ => exact ⟨_, by simp only [verify, hnumbers]; rfl⟩
      | rsaOaep hash => rcases hsigns with h | h <;> cases h
      | _ => cases hneeds
  | oct k =>
      cases a with
      | hmac hash =>
          cases hash with
          | sha1 => cases hid
          | _ => exact ⟨_, rfl⟩
      | aesGcm bits iv aad tagBits => rcases hsigns with h | h <;> cases h
      | _ => cases hneeds

end Algorithm

namespace Engine

variable {e : Engine (Except Error)} {id : String} {key : Jwk}

def UsesSoftware (e : Engine (Except Error)) : Prop :=
  ∀ entry ∈ e.registry.entries, entry.registration.adapter = .software

/-- What keeps a signature from being checked. There is no word of the signature in it. -/
inductive Hindered (e : Engine (Except Error)) (id : String) (key : Jwk) : Error → Prop
  | algorithm {error : Error} (h : Algorithm.ofId id = .error error) : Hindered e id key error
  | adapter {a : Algorithm} {error : Error} (ha : Algorithm.ofId id = .ok a)
      (h : e.registry.resolveFor a .inHand none = .error error) : Hindered e id key error
  | family {a : Algorithm} {adapter : Adapter (Except Error)} {error : Error}
      (ha : Algorithm.ofId id = .ok a)
      (hadapter : e.registry.resolveFor a .inHand none = .ok adapter)
      (h : a.bind key = .error error) : Hindered e id key error
  | imported {a : Algorithm} {adapter : Adapter (Except Error)} {binding : KeyBinding}
      {error : Error} (ha : Algorithm.ofId id = .ok a)
      (hadapter : e.registry.resolveFor a .inHand none = .ok adapter)
      (hbinding : a.bind key = .ok binding)
      (h : Software.importKey binding key true = .error error) : Hindered e id key error
  | unsigning {a : Algorithm} {adapter : Adapter (Except Error)} {binding : KeyBinding}
      {kept : ImportedKey} (ha : Algorithm.ofId id = .ok a)
      (hadapter : e.registry.resolveFor a .inHand none = .ok adapter)
      (hbinding : a.bind key = .ok binding)
      (hkept : Software.importKey binding key true = .ok kept) (h : ¬ a.Signs) :
      Hindered e id key (a.cannotSign key "verify")

theorem software_of_lookup (he : e.UsesSoftware) {capability : Capability} {scope : Scope}
    {reference : Option Reference} {registration : Registration (Except Error)}
    (h : e.registry.lookup? capability id scope reference = some registration) :
    registration.adapter = .software := by
  obtain ⟨entry, hentry, rfl⟩ := Option.map_eq_some_iff.mp h
  exact he entry (List.mem_of_find?_eq_some hentry)

theorem software_of_resolve (he : e.UsesSoftware) {a : Algorithm} {scope : Scope}
    {reference : Option Reference} {adapter : Adapter (Except Error)}
    (h : e.registry.resolveFor a scope reference = .ok adapter) : adapter = .software := by
  obtain ⟨id, -, h⟩ := bind_eq_ok h
  rw [Registry.resolve] at h
  split at h
  next registration hfound =>
    cases h
    rcases Option.or_eq_some_iff.mp hfound with hexact | ⟨-, hany⟩
    · exact software_of_lookup he hexact
    · exact software_of_lookup he hany
  · cases h

theorem verify_eq (he : e.UsesSoftware) (id : String) (key : Jwk) (signature data : Bytes) :
    e.verify id key signature data =
      (Algorithm.ofId id).bind fun a => (e.registry.resolveFor a .inHand none).bind fun _ =>
        (a.bind key).bind fun binding => (Software.importKey binding key true).bind fun _ =>
          a.verify key signature data := by
  rw [verify, liftResult_except]
  refine congrArg ((Algorithm.ofId id).bind ·) (funext fun a => ?_)
  rw [prepare, liftResult_except, liftResult_except]
  cases hadapter : e.registry.resolveFor a .inHand none with
  | error error => rfl
  | ok adapter =>
      obtain rfl := software_of_resolve he hadapter
      cases a.bind key with
      | error error => rfl
      | ok binding =>
          have himport : (Adapter.software (m := Except Error)).importKey binding key true =
              Software.importKey binding key true := liftResult_except _
          simp only [bind, Except.bind, beq_self_eq_true, himport, pure, Except.pure]
          cases hkept : Software.importKey binding key true with
          | error error => rfl
          | ok kept =>
              obtain ⟨-, -, -, rfl⟩ := Software.importKey_eq_ok_iff.mp hkept
              exact liftResult_except (a.verify key signature data)

theorem verify_of_kept {a : Algorithm} {binding : KeyBinding} {extractable : Bool}
    {kept : ImportedKey} (hid : a.id? = some id) (hsigns : a.Signs) (hkey : key.material.Checks)
    (hbinding : a.bind key = .ok binding)
    (hkept : Software.importKey binding key extractable = .ok kept) (signature data : Bytes) :
    ∃ answer, a.verify key signature data = .ok answer := by
  obtain ⟨curve, hneeds⟩ := Algorithm.needs_of_bind hbinding
  obtain ⟨-, hcheck, -, -⟩ := Software.importKey_eq_ok_iff.mp hkept
  exact Algorithm.verify_of_imported hid hsigns hkey hneeds hcheck signature data

theorem verify_error_iff (he : e.UsesSoftware) (hkey : key.material.Checks) (signature data : Bytes)
    (error : Error) :
    e.verify id key signature data = .error error ↔ e.Hindered id key error := by
  rw [verify_eq he]
  constructor
  · intro h
    rcases bind_eq_error h with ha | ⟨a, ha, h⟩
    · exact .algorithm ha
    rcases bind_eq_error h with hadapter | ⟨adapter, hadapter, h⟩
    · exact .adapter ha hadapter
    rcases bind_eq_error h with hbinding | ⟨binding, hbinding, h⟩
    · exact .family ha hadapter hbinding
    rcases bind_eq_error h with hkept | ⟨kept, hkept, h⟩
    · exact .imported ha hadapter hbinding hkept
    by_cases hsigns : a.Signs
    · obtain ⟨answer, hanswer⟩ :=
        verify_of_kept (Algorithm.id?_ofId ha) hsigns hkey hbinding hkept signature data
      cases hanswer.symm.trans h
    · rw [Algorithm.verify_unsigning hsigns] at h
      cases h
      exact .unsigning ha hadapter hbinding hkept hsigns
  · intro h
    cases h with
    | algorithm h => rw [h]; rfl
    | adapter ha h => rw [ha]; simp only [Except.bind, h]
    | family ha hadapter h => rw [ha]; simp only [Except.bind, hadapter, h]
    | imported ha hadapter hbinding h => rw [ha]; simp only [Except.bind, hadapter, hbinding, h]
    | unsigning ha hadapter hbinding hkept h =>
        rw [ha]
        simp only [Except.bind, hadapter, hbinding, hkept]
        exact Algorithm.verify_unsigning h key signature data

theorem verify_answers (he : e.UsesSoftware)
    (hkey : key.isPrivate = false ∨ key.isSymmetric = true) (id : String) :
    (∀ a adapter binding extractable kept, Algorithm.ofId id = .ok a → a.Signs →
      e.registry.resolveFor a .inHand none = .ok adapter → a.bind key = .ok binding →
      Software.importKey binding key extractable = .ok kept →
        ∀ signature data, ∃ answer, e.verify id key signature data = .ok answer) ∧
    ∀ signature data error,
      e.verify id key signature data = .error error ↔ e.Hindered id key error := by
  have hchecks := Jwk.checks_iff.mpr hkey
  refine ⟨?_, fun signature data error => verify_error_iff he hchecks signature data error⟩
  intro a adapter binding extractable kept ha hsigns hadapter hbinding hkept signature data
  obtain ⟨answer, hanswer⟩ :=
    verify_of_kept (Algorithm.id?_ofId ha) hsigns hchecks hbinding hkept signature data
  obtain ⟨hfamily, hcheck, hcurve, -⟩ := Software.importKey_eq_ok_iff.mp hkept
  have hagain : Software.importKey binding key true = .ok ⟨binding, key, true⟩ :=
    Software.importKey_eq_ok_iff.mpr ⟨hfamily, hcheck, hcurve, rfl⟩
  refine ⟨answer, ?_⟩
  rw [verify_eq he, ha]
  simp only [Except.bind, hadapter, hbinding, hagain]
  exact hanswer

theorem usesSoftware_software (config : Config) (store : KeyStore) :
    (software config store).UsesSoftware := by
  intro entry hentry
  obtain ⟨pair, -, scope, rfl⟩ := (Registry.mem_ofAdapter .software entry).mp hentry
  rfl

def generatorKey : Jwk where
  material := (Software.besideGenerator 1).material.publicPart

theorem verify_answers_generator :
    Software.importKey Software.ecBinding generatorKey true =
        .ok ⟨Software.ecBinding, generatorKey, true⟩ ∧
      (∀ signature data, ∃ answer,
        (software {} (.memory {})).verify "ES256K" generatorKey signature data = .ok answer) ∧
      ∀ signature data, (software {} (.memory {})).verify "none" generatorKey signature data =
        .error (.unsupportedAlgorithm "none") := by
  have himport : Software.importKey Software.ecBinding generatorKey true =
      .ok ⟨Software.ecBinding, generatorKey, true⟩ := by decide +kernel
  have hes256k : Algorithm.ofId "ES256K" = .ok (.ecdsa .secp256k1 .sha256) := rfl
  have hadapter := Algorithm.resolveFor_ofAdapter (m := Except Error) .software
    (Algorithm.id?_ofId hes256k) .inHand none
  have hbinding : (Algorithm.ecdsa .secp256k1 .sha256).bind generatorKey =
      .ok Software.ecBinding := by decide +kernel
  have hkey : generatorKey.isPrivate = false ∨ generatorKey.isSymmetric = true := .inl rfl
  obtain ⟨hanswers, -⟩ := verify_answers (usesSoftware_software {} (.memory {})) hkey "ES256K"
  obtain ⟨-, herrors⟩ := verify_answers (usesSoftware_software {} (.memory {})) hkey "none"
  exact ⟨himport, hanswers _ _ _ _ _ hes256k (.inl rfl) hadapter hbinding himport,
    fun signature data => (herrors signature data _).mpr (.algorithm rfl)⟩

end Engine

end JoseTokens
