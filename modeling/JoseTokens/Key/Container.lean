import JoseTokens.Key.Form

namespace JoseTokens

structure Container where
  latest : Jwk
  older : List Jwk
  deriving DecidableEq, Repr

namespace Container

def keys (c : Container) : List Jwk :=
  c.latest :: c.older

def ofKeys : List Jwk → Except Error Container
  | [] => .error (.storage .noVersion)
  | key :: older => .ok ⟨key, older⟩

def push (c : Container) (key : Jwk) : Container :=
  ⟨key, c.keys⟩

def size (c : Container) : Nat :=
  c.keys.length

def keyType (c : Container) : KeyType :=
  c.latest.keyType

def latestOnly (c : Container) : Container :=
  ⟨c.latest, []⟩

def publicOnly (c : Container) : Except Error Container := do
  return ⟨← c.latest.toPublic, ← c.older.mapM Jwk.toPublic⟩

def kids (c : Container) : List String :=
  c.keys.filterMap Jwk.kid?

def toJson (c : Container) : Json :=
  .object [("keys", .array (c.keys.map Jwk.toJson))]

def record : Json.Record (List Jwk) where
  name := "KeyVersions"
  members := [.of "keys" true (Json.list Jwk.read) fun keys _ => keys]

def read : Json.Reader Container
  | depth, bytes =>
    match record.read [] depth bytes with
    | .error e => .error e
    | .ok (keys, rest) =>
        match ofKeys keys with
        | .ok c => .ok (c, rest)
        | .error e => .error (.refused e.message)

def ofJson (bytes : Bytes) : Except Json.ReadError Container :=
  Json.document read bytes

end Container

end JoseTokens
