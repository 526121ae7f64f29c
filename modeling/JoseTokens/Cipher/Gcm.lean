import JoseTokens.Cipher.Aes

namespace JoseTokens.Gcm

def reduction : Nat :=
  0xe1 <<< 120

def multiplyFrom : Nat → Nat → Nat → Nat → Nat
  | 0, _, _, z => z
  | i + 1, x, y, z =>
      let z := if x.testBit i then z ^^^ y else z
      let y := if y.testBit 0 then (y >>> 1) ^^^ reduction else y >>> 1
      multiplyFrom i x y z

def multiply (x y : Nat) : Nat :=
  multiplyFrom 128 x y 0

def element (block : Bytes) : Nat :=
  Bytes.toNat (block ++ List.replicate (16 - block.length) 0)

def ghash (h : Nat) (aad ciphertext : Bytes) : Nat :=
  let lengths := Bytes.ofNat 8 (8 * aad.length) ++ Bytes.ofNat 8 (8 * ciphertext.length)
  let blocks := Bytes.chunks 16 aad ++ Bytes.chunks 16 ciphertext ++ [lengths]
  blocks.foldl (fun y block => multiply (y ^^^ element block) h) 0

def keystream (keys : List Bytes) (nonce : Bytes) (start blocks : Nat) : Bytes :=
  (List.range blocks).flatMap fun i =>
    Aes.encryptBlock keys (nonce ++ Bytes.ofNat 4 (start + i))

def tagSize : Nat := 16

def nonceSize : Nat := 12

def mask (keys : List Bytes) (nonce text : Bytes) : Bytes :=
  Bytes.xor text (keystream keys nonce 2 ((text.length + 15) / 16))

def tag (keys : List Bytes) (nonce aad ciphertext : Bytes) : Bytes :=
  let h := Bytes.toNat (Aes.encryptBlock keys (List.replicate 16 0))
  let first := Bytes.toNat (keystream keys nonce 1 1)
  Bytes.ofNat tagSize (ghash h aad ciphertext ^^^ first)

def encrypt (key nonce aad plaintext : Bytes) : Bytes :=
  let keys := Aes.roundKeys key
  let ciphertext := mask keys nonce plaintext
  ciphertext ++ tag keys nonce aad ciphertext

def decrypt? (key nonce aad sealed : Bytes) : Option Bytes :=
  let keys := Aes.roundKeys key
  let size := sealed.length - tagSize
  let ciphertext := sealed.take size
  if tagSize ≤ sealed.length ∧ tag keys nonce aad ciphertext = sealed.drop size then
    some (mask keys nonce ciphertext)
  else none

end JoseTokens.Gcm
