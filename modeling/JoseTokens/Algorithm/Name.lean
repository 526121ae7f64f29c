import JoseTokens.Hash.Name

namespace JoseTokens

inductive Curve where
  | secp256k1
  | ed25519
  deriving DecidableEq, Repr

namespace Curve

def text : Curve → String
  | .secp256k1 => "secp256k1"
  | .ed25519 => "Ed25519"

def ofName? (name : String) : Option Curve :=
  if name = "secp256k1" ∨ name = "K-256" ∨ name = "P-256K" then some .secp256k1
  else if name = "Ed25519" ∨ name = "ed25519" then some .ed25519
  else none

end Curve

inductive KeyType where
  | ec
  | rsa
  | okp
  | oct
  deriving DecidableEq, Repr

namespace KeyType

def text : KeyType → String
  | .ec => "EC"
  | .rsa => "RSA"
  | .okp => "OKP"
  | .oct => "oct"

def ofText? : String → Option KeyType
  | "EC" => some .ec
  | "RSA" => some .rsa
  | "OKP" => some .okp
  | "oct" => some .oct
  | _ => none

end KeyType

inductive Algorithm where
  | ecdsa (curve : Curve) (hash : HashName)
  | eddsa (curve : Curve)
  | rsaSignature (hash : HashName)
  | rsaOaep (hash : HashName)
  | aesGcm (bits : Nat) (iv aad : Bytes) (tagBits : Nat)
  | hmac (hash : HashName)
  | digest (hash : HashName)
  deriving DecidableEq, Repr

namespace Algorithm

def family : Algorithm → String
  | .ecdsa _ _ => "ECDSA"
  | .eddsa _ => "EdDSA"
  | .rsaSignature _ => "RSASSA-PKCS1-v1_5"
  | .rsaOaep _ => "RSA-OAEP"
  | .aesGcm _ _ _ _ => "AES-GCM"
  | .hmac _ => "HMAC"
  | .digest hash => hash.text

def tagBits : Nat := 128

def ivSize : Nat := 12

def supported : List (String × List String) := [
  ("RSASSA-PKCS1-v1_5", ["RS256", "RS384", "RS512"]),
  ("RSA-OAEP", ["RSA-OAEP", "RSA-OAEP-256"]),
  ("AES-GCM", ["A128GCM", "A192GCM", "A256GCM"]),
  ("ECDSA", ["ES256K"]),
  ("EdDSA", ["EdDSA"]),
  ("HMAC", ["HS256", "HS384", "HS512"]),
  ("SHA", ["SHA-256", "SHA-384", "SHA-512"])]

def contentBits? (id : String) : Option Nat :=
  if id = "A128GCM" then some 128
  else if id = "A192GCM" then some 192
  else if id = "A256GCM" then some 256
  else none

def plain? (id : String) : Option Algorithm :=
  match id with
  | "ES256K" => some (.ecdsa .secp256k1 .sha256)
  | "EdDSA" => some (.eddsa .ed25519)
  | "RS256" => some (.rsaSignature .sha256)
  | "RS384" => some (.rsaSignature .sha384)
  | "RS512" => some (.rsaSignature .sha512)
  | "RSA-OAEP" => some (.rsaOaep .sha1)
  | "RSA-OAEP-256" => some (.rsaOaep .sha256)
  | "HS256" => some (.hmac .sha256)
  | "HS384" => some (.hmac .sha384)
  | "HS512" => some (.hmac .sha512)
  | "SHA-256" => some (.digest .sha256)
  | "SHA-384" => some (.digest .sha384)
  | "SHA-512" => some (.digest .sha512)
  | _ => none

def id? : Algorithm → Option String
  | .ecdsa .secp256k1 .sha256 => some "ES256K"
  | .ecdsa _ _ => none
  | .eddsa .ed25519 => some "EdDSA"
  | .eddsa .secp256k1 => none
  | .rsaSignature .sha1 => none
  | .rsaSignature .sha256 => some "RS256"
  | .rsaSignature .sha384 => some "RS384"
  | .rsaSignature .sha512 => some "RS512"
  | .rsaOaep .sha1 => some "RSA-OAEP"
  | .rsaOaep .sha256 => some "RSA-OAEP-256"
  | .rsaOaep _ => none
  | .aesGcm bits _ _ _ =>
      if bits = 128 then some "A128GCM"
      else if bits = 192 then some "A192GCM"
      else if bits = 256 then some "A256GCM"
      else none
  | .hmac .sha1 => none
  | .hmac .sha256 => some "HS256"
  | .hmac .sha384 => some "HS384"
  | .hmac .sha512 => some "HS512"
  | .digest .sha1 => none
  | .digest hash => some hash.text

end Algorithm

inductive Capability where
  | messageSigner
  | keyEncrypter
  | symmetricEncrypter
  | macSigner
  | digest
  deriving DecidableEq, Repr

namespace Capability

def text : Capability → String
  | .messageSigner => "message-signer"
  | .keyEncrypter => "key-encrypter"
  | .symmetricEncrypter => "symmetric-encrypter"
  | .macSigner => "mac-signer"
  | .digest => "digest"

def ofText? : String → Option Capability
  | "message-signer" => some .messageSigner
  | "key-encrypter" => some .keyEncrypter
  | "symmetric-encrypter" => some .symmetricEncrypter
  | "mac-signer" => some .macSigner
  | "digest" => some .digest
  | _ => none

def ofAlgorithm : Algorithm → Capability
  | .ecdsa _ _ => .messageSigner
  | .eddsa _ => .messageSigner
  | .rsaSignature _ => .messageSigner
  | .rsaOaep _ => .keyEncrypter
  | .aesGcm _ _ _ _ => .symmetricEncrypter
  | .hmac _ => .macSigner
  | .digest _ => .digest

def names : List (Capability × List String) := [
  (.messageSigner, ["ECDSA", "EDDSA", "RSASSA-PKCS1-V1_5", "ES256K", "RS256", "RS384", "RS512"]),
  (.keyEncrypter, ["RSA-OAEP", "RSA-OAEP-256"]),
  (.symmetricEncrypter, ["AES-GCM", "A128GCM", "A192GCM", "A256GCM"]),
  (.macSigner, ["HMAC", "HS256", "HS384", "HS512"]),
  (.digest, ["SHA-256", "SHA-384", "SHA-512"])]

def ofName? (name : String) : Option Capability :=
  let upper := String.ofList (name.toList.map Char.toUpper)
  (names.find? fun (_, ids) => ids.contains upper).map (·.1)

end Capability

inductive Scope where
  | inHand
  | kept
  deriving DecidableEq, Repr

namespace Scope

def text : Scope → String
  | .inHand => "public"
  | .kept => "private"

def ofText? : String → Option Scope
  | "public" => some .inHand
  | "private" => some .kept
  | _ => none

end Scope

end JoseTokens
