import JoseTokens.Proofs.Pairwise.Algorithms
import JoseTokens.Proofs.Store.Newest

namespace JoseTokens

namespace Registry

variable {m : Type → Type} {adapter found : Adapter m} {capability : Capability} {id : String}
  {scope : Scope} {reference : Option Reference}

theorem supported_of_lookup {registration : Registration m}
    (h : (ofAdapter adapter).lookup? capability id scope reference = some registration) :
    (capability, id) ∈ supportedPairs := by
  rw [lookup?] at h
  obtain ⟨entry, hentry, -⟩ := Option.map_eq_some_iff.mp h
  obtain ⟨pair, hpair, _, rfl⟩ :=
    (mem_ofAdapter adapter entry).mp (List.mem_of_find?_eq_some hentry)
  have hsuits := List.find?_some hentry
  simp only [pairEntry, Bool.and_eq_true, beq_iff_eq] at hsuits
  obtain ⟨⟨rfl, rfl⟩, -⟩ := hsuits
  exact hpair

theorem supported_of_resolve
    (h : (ofAdapter adapter).resolve capability id scope reference = .ok found) :
    (capability, id) ∈ supportedPairs := by
  have hnamed : ∀ pair ∈ supportedPairs, pair.2 ≠ anyAlgorithm := by decide
  rw [resolve] at h
  cases hexact : (ofAdapter adapter).lookup? capability id scope reference with
  | some registration => exact supported_of_lookup hexact
  | none =>
      cases hany : (ofAdapter adapter).lookup? capability anyAlgorithm scope reference with
      | some registration => exact absurd rfl (hnamed _ (supported_of_lookup hany))
      | none =>
          rw [hexact, hany] at h
          cases h

end Registry

namespace Algorithm

theorem exists_of_supported {capability : Capability} {id : String}
    (h : (capability, id) ∈ Registry.supportedPairs) : ∃ inputs a, ofId id inputs = .ok a := by
  have hknown : ∀ pair ∈ Registry.supportedPairs,
      (ofId pair.2 ⟨some [], some []⟩).isOk = true := by decide
  obtain ⟨a, ha⟩ := exists_of_isOk (hknown _ h)
  exact ⟨_, a, ha⟩

theorem capability_of_supported {capability : Capability} {id : String} {a : Algorithm}
    (h : (capability, id) ∈ Registry.supportedPairs) (hid : a.id? = some id) :
    a.capability = capability := by
  -- No identifier is registered for two capabilities.
  have hunique : ∀ pair ∈ Registry.supportedPairs, ∀ other ∈ Registry.supportedPairs,
      pair.2 = other.2 → pair.1 = other.1 := by decide
  exact hunique _ (supported_of_id? a id hid) _ h rfl

theorem ofId_eq_ok {id : String} {inputs : CipherInputs} {a : Algorithm}
    (h : ofId id inputs = .ok a) : plain? id = some a ∨
      ∃ bits iv aad, contentBits? id = some bits ∧ a = .aesGcm bits iv aad tagBits := by
  unfold ofId at h
  split at h
  next bits hbits =>
    split at h
    · cases h
    · cases h
    · cases h
      exact .inr ⟨bits, _, _, hbits, rfl⟩
  next =>
    split at h
    next a hplain =>
      cases h
      exact .inl hplain
    · cases h

theorem needs_rsa_iff {id : String} {inputs : CipherInputs} {a : Algorithm}
    (h : ofId id inputs = .ok a) : a.needs? = some (.rsa, none) ↔ id ∈ rsaIds := by
  rcases ofId_eq_ok h with hplain | ⟨bits, iv, aad, hbits, rfl⟩
  · unfold plain? at hplain
    split at hplain <;> cases hplain <;> decide
  · have hother : ∀ id ∈ rsaIds, contentBits? id = none := by decide
    constructor
    · intro hneeds
      cases hneeds
    · intro hid
      rw [hother id hid] at hbits
      cases hbits

theorem bind_of_curve {a : Algorithm} {key : Jwk} {curve : Curve} {name : String}
    (hneeds : a.needs? = some (key.keyType, some curve)) (hcurve : key.curve? = some name)
    (hname : Curve.ofName? name = some curve) : ∃ binding, a.bind key = .ok binding := by
  cases a <;> simp_all [bind, needs?, misfit?, curveFault?]

theorem secretSize_of_content {id : String} {bits size : Nat} (hbits : contentBits? id = some bits)
    (hsize : KeyRequest.secretSize? id = some size) : size * 8 = bits := by
  unfold KeyRequest.secretSize? at hsize
  split at hsize <;> cases hsize <;> cases hbits <;> rfl

theorem bind_of_secret {id : String} {inputs : CipherInputs} {a : Algorithm} {key : Jwk}
    {k : Bytes} (h : ofId id inputs = .ok a)
    (hsize : KeyRequest.secretSize? id = some k.length) (hkey : key.material = .oct k) :
    ∃ binding, a.bind key = .ok binding := by
  have hoct : key.keyType = .oct := by rw [Jwk.keyType, hkey, Material.keyType]
  rcases ofId_eq_ok h with hplain | ⟨bits, iv, aad, hbits, rfl⟩
  · unfold plain? at hplain
    split at hplain <;> cases hplain <;> first | cases hsize | simp [bind, needs?, misfit?, hoct]
  · simp [bind, needs?, misfit?, hoct, hkey, secretSize_of_content hbits hsize]

end Algorithm

namespace KeyRequest

def capability : KeyRequest → Capability
  | .ecdsa _ => .messageSigner
  | .eddsa => .messageSigner
  | .rsa algorithm _ =>
      if "RSA-OAEP".toList.isPrefixOf algorithm.toList then .keyEncrypter else .messageSigner
  | .secret algorithm =>
      if "HS".toList.isPrefixOf algorithm.toList then .macSigner else .symmetricEncrypter

theorem named_family (r : KeyRequest) : Capability.named r.family = .ok r.capability := by
  cases r with
  | ecdsa curve =>
      rw [family, capability]
      rfl
  | eddsa =>
      rw [family, capability]
      rfl
  | rsa algorithm bits =>
      rw [family, capability]
      split <;> rfl
  | secret algorithm =>
      rw [family, capability]
      split <;> rfl

def purposeOf (capability : Capability) : String :=
  if capability = .keyEncrypter ∨ capability = .symmetricEncrypter then "enc" else "sig"

theorem purpose_eq (r : KeyRequest) : r.purpose = purposeOf r.capability := by
  cases r with
  | ecdsa curve => rfl
  | eddsa => rfl
  | rsa algorithm bits =>
      rw [purpose, family, capability]
      split <;> rfl
  | secret algorithm =>
      rw [purpose, family, capability]
      split <;> rfl

theorem algorithm_withDefaults (r : KeyRequest) (config : Config) :
    (r.withDefaults config).algorithm = r.algorithm := by
  unfold withDefaults
  split <;> rfl

def Misnamed : KeyRequest → Prop
  | .rsa algorithm _ => algorithm = "ES256K" ∨ algorithm = "EdDSA"
  | _ => False

theorem misnamed_withDefaults (r : KeyRequest) (config : Config) :
    (r.withDefaults config).Misnamed ↔ r.Misnamed := by
  unfold withDefaults
  split <;> rfl

def Yields : KeyRequest → Material → Prop
  | .ecdsa _, material => material.keyType = .ec ∧ material.curve? = some Curve.secp256k1.text
  | .eddsa, material => material.keyType = .okp ∧ material.curve? = some Curve.ed25519.text
  | .rsa _ _, material => material.keyType = .rsa
  | .secret algorithm, material =>
      ∃ k, material = .oct k ∧ secretSize? algorithm = some k.length

theorem keyType_ofRsa {key : Rsa.PrivateKey} {material : Material}
    (h : Material.ofRsa key = .ok material) : material.keyType = .rsa := by
  rw [Material.ofRsa] at h
  split at h
  · split at h
    · cases h
      rfl
    · cases h
  · cases h

theorem generate_ok {r : KeyRequest} {entropy : Entropy} {key : Jwk}
    (h : r.generate entropy = .ok key) :
    key.labels = { alg := some r.algorithm } ∧ r.Yields key.material := by
  cases r with
  | ecdsa curve =>
      rw [generate] at h
      split at h
      · split at h
        · cases h
          exact ⟨rfl, rfl, rfl⟩
        · cases h
      · cases h
  | eddsa =>
      cases h
      exact ⟨rfl, rfl, rfl⟩
  | rsa algorithm bits =>
      rw [generate] at h
      split at h
      · cases h
      · obtain ⟨material, hmaterial, rfl⟩ := map_eq_ok h
        exact ⟨rfl, keyType_ofRsa hmaterial⟩
  | secret algorithm =>
      rw [generate] at h
      split at h
      next size hsize =>
        cases h
        refine ⟨rfl, entropy.take size, rfl, ?_⟩
        rw [hsize, Entropy.take, List.length_map, List.length_range]
      · cases h

theorem taken_iff {r : KeyRequest} {key : Jwk} {inputs : CipherInputs} {a : Algorithm}
    (hserved : (r.capability, r.algorithm) ∈ Registry.supportedPairs)
    (hyields : r.Yields key.material) (ha : Algorithm.ofId r.algorithm inputs = .ok a) :
    (∃ binding, a.bind key = .ok binding) ↔ ¬ r.Misnamed := by
  cases r with
  | ecdsa curve =>
      cases ha
      obtain ⟨htype, hcurve⟩ := hyields
      have hneeds : (Algorithm.ecdsa .secp256k1 .sha256).needs? =
          some (key.keyType, some .secp256k1) := by rw [Jwk.keyType, htype]; rfl
      exact iff_of_true (Algorithm.bind_of_curve hneeds hcurve (by decide)) id
  | eddsa =>
      cases ha
      obtain ⟨htype, hcurve⟩ := hyields
      have hneeds : (Algorithm.eddsa .ed25519).needs? =
          some (key.keyType, some .ed25519) := by rw [Jwk.keyType, htype]; rfl
      exact iff_of_true (Algorithm.bind_of_curve hneeds hcurve (by decide)) id
  | rsa algorithm bits =>
      have hfamily : (rsa algorithm bits).capability = .messageSigner ∨
          (rsa algorithm bits).capability = .keyEncrypter := by
        rw [capability]
        split <;> simp
      have hnames : ∀ pair ∈ Registry.supportedPairs,
          pair.1 = .messageSigner ∨ pair.1 = .keyEncrypter →
            (pair.2 ∈ Algorithm.rsaIds ↔ ¬ (pair.2 = "ES256K" ∨ pair.2 = "EdDSA")) := by decide
      rw [Algorithm.bind_rsa_iff hyields, Algorithm.needs_rsa_iff ha]
      exact hnames _ hserved hfamily
  | secret algorithm =>
      obtain ⟨k, hk, hsize⟩ := hyields
      exact iff_of_true (Algorithm.bind_of_secret ha hsize hk) id

end KeyRequest

namespace Engine

variable {config : Config} {store : KeyStore} {request : KeyRequest} {entropy : Entropy} {key : Jwk}

theorem generateKey_eq_ok (h : (software config store).generateKey request entropy = .ok key) :
    ((request.withDefaults config).capability, request.algorithm) ∈ Registry.supportedPairs ∧
      ∃ made, (request.withDefaults config).generate entropy = .ok made ∧
        key = (made.withPurpose (request.withDefaults config).purpose).withKid made.thumbprint := by
  have hconfig : (software config store).config = config := rfl
  rw [← KeyRequest.algorithm_withDefaults request config]
  rw [generateKey, hconfig] at h
  generalize request.withDefaults config = r at h ⊢
  simp only [liftResult_except, KeyRequest.named_family] at h
  obtain ⟨_, ⟨⟩, hrest⟩ := bind_eq_ok h
  obtain ⟨adapter, hadapter, hrest⟩ := bind_eq_ok hrest
  have hserved := Registry.supported_of_resolve hadapter
  obtain rfl := Except.ok.inj
    ((Registry.resolve_ofAdapter Adapter.software hserved .kept none).symm.trans hadapter)
  obtain ⟨made, hmade, hkey⟩ := bind_eq_ok hrest
  have hgenerate : r.generate entropy = .ok made := (liftResult_except _).symm.trans hmade
  have hnew : ¬ (made.withPurpose r.purpose).kid?.isSome = true := by
    obtain ⟨hlabels, -⟩ := KeyRequest.generate_ok hgenerate
    simp [Jwk.kid?, Jwk.withPurpose, hlabels]
  rw [if_neg hnew] at hkey
  exact ⟨hserved, made, hgenerate, (Except.ok.inj hkey).symm⟩

structure Consistent (id : String) (key : Jwk) : Prop where
  declares : key.alg? = some id
  identified : key.kid? = some key.thumbprint
  known : ∃ inputs a, Algorithm.ofId id inputs = .ok a
  purpose : ∀ inputs a, Algorithm.ofId id inputs = .ok a →
    key.purpose? = some (KeyRequest.purposeOf a.capability)

theorem consistent_of_generateKey
    (h : (software config store).generateKey request entropy = .ok key) :
    Consistent request.algorithm key := by
  obtain ⟨hserved, made, hmade, rfl⟩ := generateKey_eq_ok h
  obtain ⟨hlabels, -⟩ := KeyRequest.generate_ok hmade
  rw [KeyRequest.algorithm_withDefaults] at hlabels
  refine
    { declares := congrArg Labels.alg hlabels
      identified := rfl
      known := Algorithm.exists_of_supported hserved
      purpose := fun inputs a ha => ?_ }
  rw [Algorithm.capability_of_supported hserved (Algorithm.id?_ofId ha), ← KeyRequest.purpose_eq]
  rfl

theorem taken_of_generateKey {inputs : CipherInputs} {a : Algorithm}
    (h : (software config store).generateKey request entropy = .ok key)
    (ha : Algorithm.ofId request.algorithm inputs = .ok a) :
    (∃ binding, a.bind key = .ok binding) ↔ ¬ request.Misnamed := by
  obtain ⟨hserved, made, hmade, rfl⟩ := generateKey_eq_ok h
  obtain ⟨-, hyields⟩ := KeyRequest.generate_ok hmade
  rw [← KeyRequest.algorithm_withDefaults request config] at hserved ha
  rw [← KeyRequest.misnamed_withDefaults request config]
  exact KeyRequest.taken_iff hserved hyields ha

theorem generateAndStore_software (reference : Reference) :
    (software config store).generateAndStore request reference entropy =
      ((software config store).generateKey request entropy).map fun key =>
        ((store.save reference key).1.bind fun _ => shown key,
          software config (store.save reference key).2) := by
  rw [generateAndStore]
  cases (software config store).generateKey request entropy <;> rfl

theorem shown_eq (key : Jwk) :
    shown key = .ok (if key.isSymmetric then key else KeyMap.publicForm key) := by
  rw [shown, Jwk.toPublic, KeyMap.publicForm]
  split <;> rfl

theorem generated_consistent (config : Config) (store : KeyStore) (request : KeyRequest)
    (entropy : Entropy) (reference : Reference) :
    (∀ error, (software config store).generateKey request entropy = .error error →
      (software config store).generateAndStore request reference entropy = .error error) ∧
    ∀ key, (software config store).generateKey request entropy = .ok key →
      Consistent request.algorithm key ∧
      (∀ inputs a, Algorithm.ofId request.algorithm inputs = .ok a →
        ((∃ binding, a.bind key = .ok binding) ↔ ¬ request.Misnamed)) ∧
      ∃ result store', (software config store).generateAndStore request reference entropy =
          .ok (result, software config store') ∧
        (∀ error, (store.save reference key).1 = .error error → result = .error error) ∧
        ((store.save reference key).1 = .ok () →
          result = .ok (if key.isSymmetric then key else KeyMap.publicForm key) ∧
            store.OnTop reference key store' ∧ store'.latest reference = .ok key) := by
  rw [generateAndStore_software]
  constructor
  · intro error herror
    rw [herror]
    rfl
  · intro key hkey
    rw [hkey]
    refine ⟨consistent_of_generateKey hkey, fun _ _ => taken_of_generateKey hkey, _, _, rfl, ?_, ?_⟩
    · intro error herror
      rw [herror]
      rfl
    · intro hsaved
      have htop : store.OnTop reference key (store.save reference key).2 :=
        KeyStore.onTop_of_save (Prod.ext hsaved rfl)
      rw [hsaved]
      exact ⟨shown_eq key, htop, htop.latest⟩

def alternating : Entropy :=
  ⟨fun i => UInt8.ofNat (i % 2)⟩

theorem generated_consistent_alternating : ∃ key store',
    (software {} (.memory {})).generateKey (.rsa "RSA-OAEP" (some 64)) alternating = .ok key ∧
      Consistent "RSA-OAEP" key ∧ (∃ binding, (Algorithm.rsaOaep .sha1).bind key = .ok binding) ∧
      (software {} (.memory {})).generateAndStore (.rsa "RSA-OAEP" (some 64))
        ⟨"a", .key, none⟩ alternating =
          .ok (.ok (if key.isSymmetric then key else KeyMap.publicForm key),
            software {} store') ∧
      store'.latest ⟨"a", .key, none⟩ = .ok key := by
  obtain ⟨key, hkey⟩ := exists_of_isOk
    (x := (software {} (.memory {})).generateKey (.rsa "RSA-OAEP" (some 64)) alternating)
    (by decide +kernel)
  obtain ⟨-, hgenerated⟩ := generated_consistent {} (.memory {}) (.rsa "RSA-OAEP" (some 64))
    alternating ⟨"a", .key, none⟩
  obtain ⟨hconsistent, htaken, result, store', hstored, -, hresult⟩ := hgenerated key hkey
  obtain ⟨hshown, -, hlatest⟩ := hresult rfl
  have hnamed : ¬ (KeyRequest.rsa "RSA-OAEP" (some 64)).Misnamed := by simp [KeyRequest.Misnamed]
  exact ⟨key, store', hkey, hconsistent, (htaken {} _ rfl).mpr hnamed, hshown ▸ hstored, hlatest⟩

theorem not_generated_taken :
    ¬ ∀ (config : Config) (store : KeyStore) (request : KeyRequest) (entropy : Entropy) (key : Jwk),
      (software config store).generateKey request entropy = .ok key →
        ∀ inputs a, Algorithm.ofId request.algorithm inputs = .ok a →
          ∃ binding, a.bind key = .ok binding := by
  intro hall
  obtain ⟨key, hkey⟩ := exists_of_isOk
    (x := (software {} (.memory {})).generateKey (.rsa "ES256K" (some 64)) alternating)
    (by decide +kernel)
  have ha : Algorithm.ofId "ES256K" {} = .ok (.ecdsa .secp256k1 .sha256) := rfl
  exact (taken_of_generateKey hkey ha).mp (hall _ _ _ _ key hkey {} _ ha) (.inl rfl)

end Engine

end JoseTokens
