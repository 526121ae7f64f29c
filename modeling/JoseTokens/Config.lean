import JoseTokens.Error

namespace JoseTokens

structure Config where
  contentEncryption : String := "A256GCM"
  keyEncryption : String := "RSA-OAEP-256"
  modulusBits : Nat := 2048
  verifyAllSignatures : Bool := true
  deriving DecidableEq, Repr

namespace Config

def record : Json.Record Config where
  name := "JoseConfig"
  members := [
    .of "default_content_encryption" false Json.text
      fun contentEncryption c => { c with contentEncryption },
    .of "default_key_encryption" false Json.text fun keyEncryption c => { c with keyEncryption },
    .of "default_rsa_modulus_length" false (Json.natural (Nat.pow 2 64) "usize")
      fun modulusBits c => { c with modulusBits },
    .of "verify_all_signatures" false Json.flag
      fun verifyAllSignatures c => { c with verifyAllSignatures }]

def ofJson (bytes : Bytes) : Except Error Config :=
  match Json.document (record.read {}) bytes with
  | .ok config => .ok config
  | .error e => .error (.serialization (.json e))

def toJson (c : Config) : Json :=
  .object [
    ("default_content_encryption", .string c.contentEncryption),
    ("default_key_encryption", .string c.keyEncryption),
    ("default_rsa_modulus_length", .int c.modulusBits),
    ("verify_all_signatures", .bool c.verifyAllSignatures)]

end Config

end JoseTokens
