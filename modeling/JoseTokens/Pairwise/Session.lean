import JoseTokens.Engine.Operations
import JoseTokens.Pairwise.Derivation

namespace JoseTokens.Pairwise

structure Session where
  seed : Bytes
  personas : List (String × Bytes) := []
  deriving DecidableEq, Repr

namespace Session

def masterKey (s : Session) (persona : String) : Bytes × Session :=
  match Json.find? persona s.personas with
  | some key => (key, s)
  | none =>
      let key := personaKey s.seed persona
      (key, { s with personas := (persona, key) :: s.personas })

def derive (s : Session) (request : KeyRequest) (persona peer : String) :
    Except Error Jwk × Session :=
  match Target.ofRequest request with
  | .error e => (.error e, s)
  | .ok target =>
      let (key, s) := s.masterKey persona
      (target.derive (peerSeed key peer), s)

end Session

def Session.start (store : KeyStore) (reference : Reference) : Except Error Session := do
  let key ← store.latest reference
  match key.material with
  | .oct k => return { seed := k }
  | _ => .error (.invalidKey (.seedType reference key.keyType))

def derive {m : Type → Type} (e : Engine m) (request : KeyRequest) (reference : Reference)
    (persona peer : String) : Except Error Jwk := do
  let request := request.withDefaults e.config
  let _ ← Target.ofRequest request
  let session ← Session.start e.store reference
  (session.derive request persona peer).1

end JoseTokens.Pairwise
