import JoseTokens.Json.Printer
import JoseTokens.Json.Record

namespace JoseTokens

inductive StorageClass where
  | key
  | secret
  deriving DecidableEq, Repr

namespace StorageClass

def text : StorageClass → String
  | .key => "key"
  | .secret => "secret"

def known : List (String × StorageClass) :=
  [("key", .key), ("secret", .secret)]

def ofText? (text : String) : Option StorageClass :=
  known.lookup text

end StorageClass

structure Reference where
  name : String
  storage : StorageClass
  remote : Option String := none
  deriving DecidableEq, Repr

namespace Reference

def text (r : Reference) : String :=
  r.storage.text ++ "/" ++ r.name

def toJson (r : Reference) : Json :=
  let remote := match r.remote with
    | some remote => [("remote_key_reference", Json.string remote)]
    | none => []
  .object (("name", .string r.name) :: ("class", .string r.storage.text) :: remote)

def record : Json.Record Reference where
  name := "KeyReference"
  members := [
    .of "name" true Json.text fun name r => { r with name },
    .of "class" true (Json.choice StorageClass.known) fun storage r => { r with storage },
    .of "remote_key_reference" false (Json.optional Json.text) fun remote r => { r with remote }]

def ofJson (bytes : Bytes) : Except Json.ReadError Reference :=
  Json.document (record.read { name := "", storage := .key }) bytes

end Reference

end JoseTokens
