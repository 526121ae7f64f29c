import JoseTokens.Engine.Engine
import JoseTokens.Key.Thumbprint

namespace JoseTokens.Engine

variable {m : Type → Type} [Monad m] [MonadExceptOf Error m] (e : Engine m)

def prepare (a : Algorithm) (key : Jwk) (scope : Scope) (reference : Option Reference) :
    m (Adapter m × ImportedKey) := do
  let adapter ← liftResult (e.registry.resolveFor a scope reference)
  let binding ← liftResult (a.bind key)
  let imported ← adapter.importKey binding key (scope == .inHand)
  return (adapter, imported)

def signKept (a : Algorithm) (key : Jwk) (reference : Reference) (data : Bytes) : m Bytes := do
  let (adapter, imported) ← e.prepare a key .kept (some reference)
  adapter.sign a imported data

def signByReference (id : String) (reference : Reference) (data : Bytes) : m Bytes := do
  let a ← liftResult (Algorithm.ofId id)
  let key ← liftResult (e.store.latest reference)
  e.signKept a key reference data

def signWithKey (id : String) (key : Jwk) (data : Bytes) : m Bytes := do
  let a ← liftResult (Algorithm.ofId id)
  let (adapter, imported) ← e.prepare a key .inHand none
  adapter.sign a imported data

def verify (id : String) (key : Jwk) (signature data : Bytes) : m Bool := do
  let a ← liftResult (Algorithm.ofId id)
  let (adapter, imported) ← e.prepare a key .inHand none
  adapter.verify a imported signature data

def encrypt (a : Algorithm) (key : Jwk) (entropy : Entropy) (data : Bytes) : m Bytes := do
  let (adapter, imported) ← e.prepare a key .inHand none
  adapter.encrypt a imported entropy data

def encryptForKey (id : String) (key : Jwk) (entropy : Entropy) (data : Bytes) : m Bytes := do
  let a ← liftResult (Algorithm.ofId id)
  e.encrypt a key entropy data

def decrypt (a : Algorithm) (key : Jwk) (data : Bytes) : m Bytes := do
  let (adapter, imported) ← e.prepare a key .inHand none
  adapter.decrypt a imported data

def decryptKept (a : Algorithm) (key : Jwk) (reference : Reference) (data : Bytes) : m Bytes := do
  let (adapter, imported) ← e.prepare a key .kept (some reference)
  adapter.decrypt a imported data

def decryptByReference (id : String) (reference : Reference) (data : Bytes) : m Bytes := do
  let a ← liftResult (Algorithm.ofId id)
  let key ← liftResult (e.store.latest reference)
  e.decryptKept a key reference data

def digest (id : String) (data : Bytes) : m Bytes := do
  let a ← liftResult (Algorithm.ofId id)
  let adapter ← liftResult (e.registry.resolveFor a .inHand none)
  adapter.digest a data

def generateKey (request : KeyRequest) (entropy : Entropy) : m Jwk := do
  let request := request.withDefaults e.config
  let capability ← liftResult (Capability.named request.family)
  let adapter ← liftResult (e.registry.resolve capability request.algorithm .kept none)
  let key ← adapter.generateKey request entropy
  let key := key.withPurpose request.purpose
  return if key.kid?.isSome then key else key.withKid key.thumbprint

def shown (key : Jwk) : Except Error Jwk :=
  if key.isSymmetric then .ok key else key.toPublic

def generateAndStore (request : KeyRequest) (reference : Reference) (entropy : Entropy) :
    m (Except Error Jwk × Engine m) := do
  let key ← e.generateKey request entropy
  let (saved, store) := e.store.save reference key
  return (saved.bind fun _ => shown key, { e with store })

end JoseTokens.Engine
