import JoseTokens.Store.File
import JoseTokens.Store.Memory

namespace JoseTokens

inductive KeyStore where
  | memory (store : MemoryStore)
  | file (store : FileStore)
  deriving DecidableEq, Repr

namespace KeyStore

def get : KeyStore → Reference → StoreOptions → Except Error Container
  | .memory s, r, o => s.get r o
  | .file s, r, o => s.get r o

def latest (s : KeyStore) (r : Reference) : Except Error Jwk :=
  (s.get r .latest).map (·.latest)

def save : KeyStore → Reference → Jwk → Except Error Unit × KeyStore
  | .memory s, r, key => (.ok (), .memory (s.save r key))
  | .file s, r, key =>
      let (result, s) := s.save r key
      (result, .file s)

def list : KeyStore → StorageClass → StoreOptions → Except Error (List (String × Listing))
  | .memory s, storage, o => .ok (s.list storage o)
  | .file s, storage, o => s.list storage o

end KeyStore

end JoseTokens
