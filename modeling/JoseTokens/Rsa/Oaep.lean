import JoseTokens.Hash.Name
import JoseTokens.Rsa.Power

namespace JoseTokens.Rsa

def mask (hash : HashName) (seed : Bytes) (length : Nat) : Bytes :=
  ((List.range ((length + (hash.size - 1)) / hash.size)).flatMap
    fun i => hash.digest (seed ++ Bytes.ofNat 4 i)).take length

def oaepBlock (hash : HashName) (size : Nat) (seed message : Bytes) : Bytes :=
  let gap := size - message.length - 2 * hash.size - 2
  let data := hash.digest [] ++ List.replicate gap 0 ++ 1 :: message
  let maskedData := Bytes.xor data (mask hash seed data.length)
  0 :: Bytes.xor seed (mask hash maskedData hash.size) ++ maskedData

def afterZeros? : Bytes → Option Bytes
  | [] => none
  | b :: rest => if b = 0 then afterZeros? rest else if b = 1 then some rest else none

def oaepMessage? (hash : HashName) (block : Bytes) : Option Bytes :=
  match block with
  | [] => none
  | first :: rest =>
      let maskedData := rest.drop hash.size
      let seed := Bytes.xor (rest.take hash.size) (mask hash maskedData hash.size)
      let data := Bytes.xor maskedData (mask hash seed maskedData.length)
      if first = 0 ∧ data.take hash.size = hash.digest [] then afterZeros? (data.drop hash.size)
      else none

def PublicKey.encrypt (key : PublicKey) (hash : HashName) (seed message : Bytes) :
    Except Fault Bytes :=
  if key.size < message.length + 2 * hash.size + 2 then .error .messageTooLong
  else
    let block := oaepBlock hash key.size seed message
    .ok (Bytes.ofNat key.size (key.power (Bytes.toNat block)))

def PrivateKey.decrypt (key : PrivateKey) (hash : HashName) (ciphertext : Bytes) :
    Except Fault Bytes :=
  let c := Bytes.toNat ciphertext
  if ciphertext.length ≠ key.size ∨ key.n ≤ c then .error .decryption
  else do
    let m ← key.root c
    if key.size < 2 * hash.size + 2 then .error .decryption
    else match oaepMessage? hash (Bytes.ofNat key.size m) with
      | some message => return message
      | none => .error .decryption

end JoseTokens.Rsa
