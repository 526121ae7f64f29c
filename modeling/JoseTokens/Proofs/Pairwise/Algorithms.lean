import JoseTokens.Proofs.Engine.Software
import JoseTokens.Proofs.Pairwise.Scalars

namespace JoseTokens

namespace Algorithm

def rsaIds : List String :=
  ["RS256", "RS384", "RS512", "RSA-OAEP", "RSA-OAEP-256"]

theorem takesRsa_iff {id : String} :
    (∃ inputs a, ofId id inputs = .ok a ∧ a.needs? = some (.rsa, none)) ↔ id ∈ rsaIds := by
  constructor
  · rintro ⟨inputs, a, ha, hneeds⟩
    have hid : a.id? = some id := id?_ofId ha
    cases a with
    | rsaSignature hash => cases hash <;> cases hid <;> decide
    | rsaOaep hash => cases hash <;> cases hid <;> decide
    | ecdsa curve hash => cases hneeds
    | eddsa curve => cases hneeds
    | aesGcm bits iv aad tagBits => cases hneeds
    | hmac hash => cases hneeds
    | digest hash => cases hneeds
  · intro hid
    simp only [rsaIds, List.mem_cons, List.not_mem_nil, or_false] at hid
    rcases hid with rfl | rfl | rfl | rfl | rfl <;> exact ⟨{}, _, rfl, rfl⟩

theorem bind_rsa_iff {a : Algorithm} {key : Jwk} (hkey : key.keyType = .rsa) :
    (∃ binding, a.bind key = .ok binding) ↔ a.needs? = some (.rsa, none) := by
  cases a <;> simp [bind, needs?, misfit?, hkey]

end Algorithm

namespace Pairwise

def Serves (key : Jwk) : Prop :=
  ∃ id inputs a binding, key.alg? = some id ∧ Algorithm.ofId id inputs = .ok a ∧
    a.bind key = .ok binding

def Suits : KeyRequest → Prop
  | .rsa algorithm _ => algorithm ∈ Algorithm.rsaIds
  | _ => True

instance : DecidablePred Suits
  | .rsa algorithm _ => inferInstanceAs (Decidable (algorithm ∈ Algorithm.rsaIds))
  | .ecdsa _ => inferInstanceAs (Decidable True)
  | .eddsa => inferInstanceAs (Decidable True)
  | .secret _ => inferInstanceAs (Decidable True)

inductive Foreign : KeyRequest → Error → Prop
  | curve {curve : String} (h : Curve.ofName? curve ≠ some .secp256k1) :
      Foreign (.ecdsa curve) (.unsupportedCurve curve)
  | eddsa : Foreign .eddsa (.unsupportedPairwiseKey "EdDSA")
  | secret (algorithm : String) :
      Foreign (.secret algorithm) (.unsupportedPairwiseKey (KeyRequest.secret algorithm).family)

theorem serves_ofScalar (d : Nat) :
    Serves (Jwk.withAlg { material := .ofScalar d } "ES256K") := by
  have hname : Curve.ofName? Curve.secp256k1.text = some .secp256k1 := by decide
  exact ⟨"ES256K", {}, .ecdsa .secp256k1 .sha256, _, rfl, rfl,
    Algorithm.bind_ecdsa rfl rfl hname⟩

theorem serves_rsa_iff {key : Jwk} {algorithm : String} (hkey : key.keyType = .rsa)
    (halg : key.alg? = some algorithm) : Serves key ↔ algorithm ∈ Algorithm.rsaIds := by
  rw [← Algorithm.takesRsa_iff]
  constructor
  · rintro ⟨id, inputs, a, binding, hid, ha, hbinding⟩
    obtain rfl : algorithm = id := Option.some.inj (halg.symm.trans hid)
    exact ⟨inputs, a, ha, (Algorithm.bind_rsa_iff hkey).mp ⟨binding, hbinding⟩⟩
  · rintro ⟨inputs, a, ha, hneeds⟩
    obtain ⟨binding, hbinding⟩ := (Algorithm.bind_rsa_iff hkey).mpr hneeds
    exact ⟨algorithm, inputs, a, binding, halg, ha, hbinding⟩

theorem serves_iff_of_derive {request : KeyRequest} {target : Target} {seed : Bytes} {key : Jwk}
    (htarget : Target.ofRequest request = .ok target) (h : target.derive seed = .ok key) :
    Serves key ↔ Suits request := by
  rcases Target.ofRequest_cases htarget with ⟨curve, rfl, -, rfl⟩ | ⟨algorithm, bits, rfl, rfl⟩
  · obtain ⟨d, -, rfl⟩ := Target.derive_secp256k1_ok h
    exact iff_of_true (serves_ofScalar d) trivial
  · obtain ⟨hkey, halg⟩ := Target.derive_rsa_ok h
    exact serves_rsa_iff hkey halg

theorem Session.derive_eq_bind (s : Session) (request : KeyRequest) (persona peer : String) :
    (s.derive request persona peer).1 = (Target.ofRequest request).bind fun target =>
      target.derive (peerSeed (s.masterKey persona).1 peer) := by
  rw [Session.derive]
  cases Target.ofRequest request with
  | error error => simp only [Except.bind]
  | ok target => simp only [Except.bind]

theorem Session.serves_iff {s : Session} {request : KeyRequest} {persona peer : String} {key : Jwk}
    (h : (s.derive request persona peer).1 = .ok key) : Serves key ↔ Suits request := by
  rw [Session.derive_eq_bind] at h
  obtain ⟨target, htarget, h⟩ := bind_eq_ok h
  exact serves_iff_of_derive htarget h

theorem Foreign.ofRequest {request : KeyRequest} {error : Error} (h : Foreign request error) :
    Target.ofRequest request = .error error := by
  cases h with
  | curve hcurve =>
      rw [Target.ofRequest]
      split
      next hserved => exact absurd hserved hcurve
      · rfl
  | eddsa => rfl
  | secret algorithm => rfl

theorem Foreign.withDefaults {request : KeyRequest} {error : Error} (h : Foreign request error)
    (config : Config) : request.withDefaults config = request := by
  cases h <;> rfl

theorem suits_withDefaults (request : KeyRequest) (config : Config) :
    Suits (request.withDefaults config) ↔ Suits request := by
  cases request with
  | rsa algorithm bits => cases bits <;> rfl
  | ecdsa curve => rfl
  | eddsa => rfl
  | secret algorithm => rfl

theorem derive_serves_iff {m : Type → Type} (e : Engine m) (s : Session) (request : KeyRequest)
    (reference : Reference) (persona peer : String) :
    (∀ key, (s.derive request persona peer).1 = .ok key ∨
        derive e request reference persona peer = .ok key →
      (Serves key ↔ Suits request)) ∧
    ∀ error, Foreign request error →
      s.derive request persona peer = (.error error, s) ∧
        derive e request reference persona peer = .error error := by
  refine ⟨?served, fun error hforeign => ⟨?_, ?_⟩⟩
  case served =>
    rintro key (h | h)
    · exact Session.serves_iff h
    · obtain ⟨_, -, h⟩ := bind_eq_ok h
      obtain ⟨session, -, h⟩ := bind_eq_ok h
      rw [Session.serves_iff h, suits_withDefaults]
  · rw [Session.derive, hforeign.ofRequest]
  · rw [derive, hforeign.withDefaults, hforeign.ofRequest]
    rfl

theorem derive_rsa_made {seed : Bytes} {s : Session} (hs : s.Opened seed) {algorithm : String}
    {bits : Option Nat} {length : Nat} {persona peer : String} {material : Material}
    (htarget : Target.ofRequest (.rsa algorithm bits) = .ok (.rsa algorithm length))
    (h : (rsaKey (peerSeed (personaKey seed persona) peer) length).bind Material.ofRsa =
      .ok material) :
    (s.derive (.rsa algorithm bits) persona peer).1 =
      .ok (Jwk.withAlg { material } algorithm) := by
  obtain ⟨numbers, hnumbers, hmaterial⟩ := bind_eq_ok h
  rw [hs.derive_eq]
  simp only [htarget, Except.bind, Target.derive_rsa, hnumbers, hmaterial]

theorem isOk_shortest :
    ((rsaKey (peerSeed (personaKey [7] "a") "umk") 512).bind Material.ofRsa).isOk = true := by
  decide +kernel

theorem exists_declaring (algorithm : String) : ∃ key,
    (({ seed := [7] } : Session).derive (.rsa algorithm (some 512)) "a" "umk").1 = .ok key := by
  obtain ⟨material, h⟩ := exists_of_isOk isOk_shortest
  exact ⟨_, derive_rsa_made .start rfl h⟩

theorem derive_serves_iff_shortest : ∃ key,
    (({ seed := [7] } : Session).derive (.rsa "RS256" (some 512)) "a" "umk").1 = .ok key ∧
    Serves key ∧
    ({ seed := [7] } : Session).derive (.ecdsa "P-256") "a" "umk" =
      (.error (.unsupportedCurve "P-256"), { seed := [7] }) := by
  obtain ⟨key, hkey⟩ := exists_declaring "RS256"
  have hserves := derive_serves_iff (Engine.software {} (.memory {})) { seed := [7] }
    (.rsa "RS256" (some 512)) { name := "seed", storage := .secret } "a" "umk"
  have hrefused := derive_serves_iff (Engine.software {} (.memory {})) { seed := [7] }
    (.ecdsa "P-256") { name := "seed", storage := .secret } "a" "umk"
  refine ⟨key, hkey, (hserves.1 key (.inl hkey)).mpr (by decide), ?_⟩
  exact (hrefused.2 _ (.curve (by decide))).1

theorem not_derive_serves :
    (¬ ∀ (s : Session) (request : KeyRequest) (persona peer : String) (key : Jwk),
      (s.derive request persona peer).1 = .ok key → Serves key) ∧
    ¬ ∀ (s : Session) (algorithm : String) (bits : Option Nat) (persona peer : String),
      (∀ inputs, Algorithm.ofId algorithm inputs = .error (.unsupportedAlgorithm algorithm)) →
      ∃ error, (s.derive (.rsa algorithm bits) persona peer).1 = .error error := by
  constructor
  · intro h
    obtain ⟨key, hkey⟩ := exists_declaring "ES256K"
    have hsuits : Suits (.rsa "ES256K" (some 512)) :=
      (Session.serves_iff hkey).mp (h _ _ _ _ key hkey)
    exact absurd hsuits (by decide)
  · intro h
    obtain ⟨key, hkey⟩ := exists_declaring "none"
    obtain ⟨error, herror⟩ := h { seed := [7] } "none" (some 512) "a" "umk" fun _ => rfl
    rw [hkey] at herror
    cases herror

end Pairwise

end JoseTokens
