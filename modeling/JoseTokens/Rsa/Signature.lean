import JoseTokens.Hash.Name
import JoseTokens.Rsa.Power

namespace JoseTokens.Rsa

def digestLabel : HashName → Bytes
  | .sha1 => [0x30, 0x21, 0x30, 0x09, 0x06, 0x05, 0x2b, 0x0e, 0x03, 0x02, 0x1a, 0x05, 0x00, 0x04, 0x14]
  | .sha256 => label 0x31 1 0x20
  | .sha384 => label 0x41 2 0x30
  | .sha512 => label 0x51 3 0x40
where
  label (total id size : UInt8) : Bytes :=
    [0x30, total, 0x30, 0x0d, 0x06, 0x09, 0x60, 0x86, 0x48, 0x01, 0x65, 0x03, 0x04, 0x02, id, 0x05,
      0x00, 0x04, size]

def digestInfo (hash : HashName) (data : Bytes) : Bytes :=
  digestLabel hash ++ hash.digest data

def padded? (size : Nat) (info : Bytes) : Option Bytes :=
  if size < info.length + 11 then none
  else some (0 :: 1 :: List.replicate (size - info.length - 3) 0xff ++ 0 :: info)

def PrivateKey.sign (key : PrivateKey) (hash : HashName) (data : Bytes) : Except Fault Bytes :=
  match padded? key.size (digestInfo hash data) with
  | none => .error .messageTooLong
  | some block => (key.root (Bytes.toNat block)).map (Bytes.ofNat key.size)

def PublicKey.verify (key : PublicKey) (hash : HashName) (signature data : Bytes) : Bool :=
  match padded? key.size (digestInfo hash data) with
  | none => false
  | some block =>
      let s := Bytes.toNat signature
      signature.length == key.size && decide (s < key.n) &&
        Bytes.ofNat key.size (key.power s) == block

end JoseTokens.Rsa
