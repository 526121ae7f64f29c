import JoseTokens.Algorithm.Selection
import JoseTokens.Curve.Ecdsa
import JoseTokens.Key.Primitive
import JoseTokens.Rsa.Signature

namespace JoseTokens

def keyedHash (hash : HashName) (key data : Bytes) : Except Error Bytes :=
  if hash = .sha1 then .error (.unsupportedAlgorithm "HMAC SHA-1") else .ok (hash.hmac key data)

def requireSignatureHash (hash : HashName) : Except Error Unit :=
  if hash = .sha1 then .error (.unsupportedAlgorithm "RSASSA-PKCS1-v1_5 with SHA-1") else .ok ()

namespace Algorithm

def cannotSign (a : Algorithm) (key : Jwk) (action : String) : Error :=
  .invalidKey (.cannotSign a.family action key.isPrivate key.keyType)

def sign (a : Algorithm) (key : Jwk) (data : Bytes) : Except Error Bytes :=
  match a, key.material with
  | .ecdsa _ hash, .ec shown (some d) => do
      if hash ≠ .sha256 then .error (.unsupportedAlgorithm s!"ECDSA with {hash.text}")
      else
        let d ← shown.scalar d
        match Secp256k1.sign? d data with
        | some signature => return signature
        | none => .error (.cryptoFailure .ecdsaSign)
  | .eddsa _, .okp shown (some d) => do
      let seed ← shown.seed d
      return Ed25519.sign seed data
  | .rsaSignature hash, .rsa shown (some secret) => do
      requireSignatureHash hash
      let key ← shown.privateNumbers secret
      match key.sign hash data with
      | .ok signature => return signature
      | .error fault => .error (.cryptoFailure (.rsaSign fault))
  | .hmac hash, .oct k => keyedHash hash k data
  | _, _ => .error (a.cannotSign key "sign")

def verify (a : Algorithm) (key : Jwk) (signature data : Bytes) : Except Error Bool :=
  match a, key.material with
  | .ecdsa _ _, .ec shown _ => do
      let q ← shown.point
      return Secp256k1.verify q signature data
  | .eddsa _, .okp shown _ => do
      let q ← shown.point
      return Ed25519.verify shown.x q signature data
  | .rsaSignature hash, .rsa shown _ => do
      requireSignatureHash hash
      let key ← shown.numbers
      return key.verify hash signature data
  | .hmac hash, .oct k => do
      let tag ← keyedHash hash k data
      return tag == signature
  | _, _ => .error (a.cannotSign key "verify")

end Algorithm

end JoseTokens
