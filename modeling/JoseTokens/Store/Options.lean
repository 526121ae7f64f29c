import JoseTokens.Key.Container

namespace JoseTokens

structure StoreOptions where
  publicOnly : Bool := false
  latestOnly : Bool := false
  deriving DecidableEq, Repr

structure Listing where
  kids : List String
  keyType : KeyType
  deriving DecidableEq, Repr

namespace StoreOptions

def latest : StoreOptions where
  latestOnly := true

def versions (o : StoreOptions) (c : Container) : Container :=
  if o.latestOnly then c.latestOnly else c

def apply (o : StoreOptions) (c : Container) : Except Error Container :=
  if o.publicOnly then (o.versions c).publicOnly else .ok (o.versions c)

def listing (o : StoreOptions) (c : Container) : Listing where
  kids := (o.versions c).kids
  keyType := c.keyType

end StoreOptions

def Listing.toJson (l : Listing) : Json :=
  .object [("kids", .array (l.kids.map .string)), ("kty", .string l.keyType.text)]

namespace Listing

def before (a b : String) : Bool :=
  decide (Bytes.ofText a ≤ Bytes.ofText b)

def sorted (entries : List (String × Listing)) : List (String × Listing) :=
  entries.mergeSort fun a b => before a.1 b.1

end Listing

end JoseTokens
