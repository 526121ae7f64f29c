import JoseTokens.Algorithm.Name
import JoseTokens.Key.Reference
import JoseTokens.Rsa.Key
import JoseTokens.Text.Base64Url

namespace JoseTokens

inductive KeyFault where
  | missingMember (keyType member : String)
  | unsupportedType (name : String)
  | noPublicForm
  | otherType (family : String) (wanted found : KeyType)
  | otherImport (family : String) (wanted found : KeyType)
  | noCurve
  | otherCurve (family : String) (wanted : Curve) (found : String)
  | secretLength (bits length : Nat)
  | emptySecret
  | notExtractable
  | coordinateLength
  | ecPublic
  | ecPrivate
  | okpPublicLength
  | okpPrivateLength
  | okpPublic
  | rsaPublic (fault : Rsa.Fault)
  | rsaPrivate (fault : Rsa.Fault)
  | rsaInverse
  | manyPrimes
  | cipherKey
  | cannotSign (family action : String) (isPrivate : Bool) (found : KeyType)
  | cannotEncrypt (family action : String) (found : KeyType)
  | seedType (reference : Reference) (found : KeyType)
  deriving DecidableEq, Repr

def KeyFault.message : KeyFault → String
  | .missingMember keyType member => s!"{keyType} key is missing '{member}'"
  | .unsupportedType name => s!"unsupported key type '{name}'"
  | .noPublicForm => "a symmetric key has no public form"
  | .otherType family wanted found =>
      s!"{family} requires a {wanted.text} key, got {found.text}"
  | .otherImport family wanted found =>
      s!"{family} import expects a {wanted.text} key, got {found.text}"
  | .noCurve => "key has no curve"
  | .otherCurve family wanted found => s!"{family} over {wanted.text} cannot use a {found} key"
  | .secretLength bits length => s!"AES-GCM-{bits} needs a {bits / 8}-byte key, got {length}"
  | .emptySecret => "empty symmetric key"
  | .notExtractable => "key is not extractable"
  | .coordinateLength => "secp256k1 coordinates must be 32 bytes"
  | .ecPublic => "invalid secp256k1 public key: signature error"
  | .ecPrivate => "invalid secp256k1 private key: signature error"
  | .okpPublicLength => "Ed25519 public key must be 32 bytes"
  | .okpPrivateLength => "Ed25519 private key must be 32 bytes"
  | .okpPublic =>
      "invalid Ed25519 public key: signature error: Cannot decompress Edwards point"
  | .rsaPublic fault => s!"invalid RSA public key: {fault.message}"
  | .rsaPrivate fault => s!"invalid RSA private key: {fault.message}"
  | .rsaInverse => "RSA key lacks CRT parameters"
  | .manyPrimes => "multi-prime RSA keys are not supported"
  | .cipherKey => "AES-GCM key: Invalid Length"
  | .cannotSign family action isPrivate found =>
      let half := if isPrivate then "private" else "public"
      s!"{family} cannot {action} with a {half} {found.text} key"
  | .cannotEncrypt family action found => s!"{family} cannot {action} with a {found.text} key"
  | .seedType reference found =>
      s!"pairwise seed {reference.text} must be a symmetric key, found {found.text}"

inductive ArgumentFault where
  | noIv (id : String)
  | noAad (id : String)
  | keyForDigest
  | ivLength (length : Nat)
  | pairwiseModulus (bits : Nat)
  | compactHeader
  | compactExtras
  | otherPayload
  | noRecipients
  | emptyPayload
  | fileName (name : String)
  deriving DecidableEq, Repr

def ArgumentFault.message : ArgumentFault → String
  | .noIv id => s!"{id} requires an initialization vector"
  | .noAad id => s!"{id} requires additional authenticated data"
  | .keyForDigest => "digest algorithms take no key"
  | .ivLength length =>
      s!"AES-GCM initialization vector must be {Algorithm.ivSize} bytes, got {length}"
  | .pairwiseModulus bits =>
      s!"pairwise RSA modulus must be a multiple of 16 bits and at least 512, got {bits}"
  | .compactHeader => "compact serialization cannot carry an unprotected header"
  | .compactExtras => "compact serialization cannot carry unprotected headers or aad"
  | .otherPayload => "supplied payload differs from the token payload"
  | .noRecipients => "no recipients given"
  | .emptyPayload => "payload is empty"
  | .fileName name => s!"key name cannot be used as a file name: {Text.quoted name}"

inductive CryptoFault where
  | rsaGeneration (fault : Rsa.Fault)
  | rsaSign (fault : Rsa.Fault)
  | oaepEncrypt (fault : Rsa.Fault)
  | oaepDecrypt (fault : Rsa.Fault)
  | derivedPrimes (fault : Rsa.Fault)
  | ecdsaSign
  | authentication
  | shortOutput
  | scalarsExhausted
  | primesExhausted
  | adapter (reason : String)
  deriving DecidableEq, Repr

def CryptoFault.message : CryptoFault → String
  | .rsaGeneration fault => s!"RSA key generation: {fault.message}"
  | .rsaSign fault => s!"RSA sign: {fault.message}"
  | .oaepEncrypt fault => s!"RSA-OAEP encrypt: {fault.message}"
  | .oaepDecrypt fault => s!"RSA-OAEP decrypt: {fault.message}"
  | .derivedPrimes fault => s!"RSA assembly from derived primes: {fault.message}"
  | .ecdsaSign => "ECDSA sign: signature error"
  | .authentication => "AES-GCM authentication failed"
  | .shortOutput => "cipher output shorter than tag"
  | .scalarsExhausted => "secp256k1 scalar search exhausted"
  | .primesExhausted => "RSA prime search exhausted"
  | .adapter reason => reason

inductive StorageFault where
  | noVersion
  | unreadable (path : String) (error : Json.ReadError)
  | fileVersion (version : Nat) (path : String)
  deriving DecidableEq, Repr

def StorageFault.message : StorageFault → String
  | .noVersion => "key container needs at least one version"
  | .unreadable path error => s!"failed to parse key file {path}: {error.message}"
  | .fileVersion version path => s!"unsupported key file version {version} in {path}"

inductive SerializationFault where
  | base64 (field : String) (fault : Base64Url.Fault)
  | json (error : Json.ReadError)
  | jsonOf (document : String) (error : Json.ReadError)
  deriving DecidableEq, Repr

def SerializationFault.message : SerializationFault → String
  | .base64 field fault => s!"invalid base64url in {field}: {fault.message}"
  | .json error => error.message
  | .jsonOf document error => s!"{document}: {error.message}"

inductive Error where
  | unsupportedAlgorithm (name : String)
  | unsupportedFormat (name : String)
  | unsupportedCurve (name : String)
  | unsupportedPairwiseKey (family : String)
  | noAdapter (capability : Capability) (algorithm : String) (scope : Scope)
  | keyNotFound (reference : Reference)
  | missingAlgorithm (place : String)
  | malformedToken (missing : String)
  | contentKeyUnrecoverable
  | tooManySignatures (count : Nat)
  | tooManyRecipients (count : Nat)
  | invalidKey (fault : KeyFault)
  | invalidArgument (fault : ArgumentFault)
  | cryptoFailure (fault : CryptoFault)
  | storage (fault : StorageFault)
  | serialization (fault : SerializationFault)
  | io
  deriving DecidableEq, Repr

def Error.message : Error → String
  | .unsupportedAlgorithm name => s!"Unsupported algorithm: {name}"
  | .unsupportedFormat name => s!"Unsupported serialization format: {name}"
  | .unsupportedCurve name => s!"Unsupported curve: {name}"
  | .unsupportedPairwiseKey family =>
      s!"Unsupported key type for pairwise derivation: {family}"
  | .noAdapter capability algorithm scope =>
      s!"No adapter registered for {capability.text} {algorithm} ({scope.text} scope)"
  | .keyNotFound reference => s!"Key not found: {reference.text}"
  | .missingAlgorithm place => s!"No algorithm found in {place}"
  | .malformedToken missing => s!"Malformed token: missing {missing}"
  | .contentKeyUnrecoverable => "No recipient content encryption key could be unwrapped"
  | .tooManySignatures count => s!"Format supports a single signature, token has {count}"
  | .tooManyRecipients count => s!"Format supports a single recipient, token has {count}"
  | .invalidKey fault => s!"Invalid key: {fault.message}"
  | .invalidArgument fault => s!"Invalid argument: {fault.message}"
  | .cryptoFailure fault => s!"Cryptographic operation failed: {fault.message}"
  | .storage fault => s!"Storage error: {fault.message}"
  | .serialization fault => s!"Serialization error: {fault.message}"
  | .io => "IO error"

def decodeField (field text : String) : Except Error Bytes :=
  match Base64Url.decode text with
  | .ok bytes => .ok bytes
  | .error fault => .error (.serialization (.base64 field fault))

end JoseTokens
