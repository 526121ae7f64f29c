import JoseTokens.Store.Options

namespace JoseTokens

structure MemoryStore where
  entries : List ((StorageClass × String) × Container) := []
  deriving DecidableEq, Repr

namespace MemoryStore

def slot (r : Reference) : StorageClass × String :=
  (r.storage, r.name)

def find? (s : MemoryStore) (r : Reference) : Option Container :=
  (s.entries.find? fun (key, _) => key == slot r).map (·.2)

def get (s : MemoryStore) (r : Reference) (o : StoreOptions) : Except Error Container :=
  match s.find? r with
  | some c => o.apply c
  | none => .error (.keyNotFound r)

def saveIn (slot : StorageClass × String) (key : Jwk) :
    List ((StorageClass × String) × Container) → List ((StorageClass × String) × Container)
  | [] => [(slot, ⟨key, []⟩)]
  | (other, c) :: rest =>
      if other = slot then (other, c.push key) :: rest else (other, c) :: saveIn slot key rest

def save (s : MemoryStore) (r : Reference) (key : Jwk) : MemoryStore :=
  ⟨saveIn (slot r) key s.entries⟩

def list (s : MemoryStore) (storage : StorageClass) (o : StoreOptions) :
    List (String × Listing) :=
  Listing.sorted (s.entries.filterMap fun ((c, name), container) =>
    if c = storage then some (name, o.listing container) else none)

end MemoryStore

end JoseTokens
