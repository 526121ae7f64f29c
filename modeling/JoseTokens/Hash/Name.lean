import JoseTokens.Hash.Sha1
import JoseTokens.Hash.Sha256
import JoseTokens.Hash.Sha512

namespace JoseTokens

inductive HashName where
  | sha1
  | sha256
  | sha384
  | sha512
  deriving DecidableEq, Repr

namespace HashName

def text : HashName → String
  | .sha1 => "SHA-1"
  | .sha256 => "SHA-256"
  | .sha384 => "SHA-384"
  | .sha512 => "SHA-512"

def ofText? : String → Option HashName
  | "SHA-1" => some .sha1
  | "SHA-256" => some .sha256
  | "SHA-384" => some .sha384
  | "SHA-512" => some .sha512
  | _ => none

def size : HashName → Nat
  | .sha1 => 20
  | .sha256 => 32
  | .sha384 => 48
  | .sha512 => 64

def blockSize : HashName → Nat
  | .sha1 => 64
  | .sha256 => 64
  | .sha384 => 128
  | .sha512 => 128

def digest : HashName → Bytes → Bytes
  | .sha1 => Sha1.digest
  | .sha256 => Sha256.digest
  | .sha384 => Sha512.digest384
  | .sha512 => Sha512.digest

def keyBlock (hash : HashName) (key : Bytes) : Bytes :=
  let short := if hash.blockSize < key.length then hash.digest key else key
  short ++ List.replicate (hash.blockSize - short.length) 0

def innerInput (hash : HashName) (key data : Bytes) : Bytes :=
  (hash.keyBlock key).map (· ^^^ 0x36) ++ data

def outerInput (hash : HashName) (key data : Bytes) : Bytes :=
  (hash.keyBlock key).map (· ^^^ 0x5c) ++ hash.digest (hash.innerInput key data)

def hmac (hash : HashName) (key data : Bytes) : Bytes :=
  hash.digest (hash.outerInput key data)

end HashName

end JoseTokens
