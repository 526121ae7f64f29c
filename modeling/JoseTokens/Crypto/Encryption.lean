import JoseTokens.Algorithm.Selection
import JoseTokens.Cipher.Gcm
import JoseTokens.Crypto.Entropy
import JoseTokens.Key.Primitive
import JoseTokens.Rsa.Oaep

namespace JoseTokens.Algorithm

def cannotEncrypt (a : Algorithm) (key : Jwk) (action : String) : Error :=
  .invalidKey (.cannotEncrypt a.family action key.keyType)

def cipherFault? (bits : Nat) (iv : Bytes) (tagLength : Nat) (key : Bytes) : Option Error :=
  if tagLength ≠ tagBits then some (.unsupportedAlgorithm s!"AES-GCM with {tagLength}-bit tag")
  else if iv.length ≠ ivSize then some (.invalidArgument (.ivLength iv.length))
  else if bits ≠ 128 ∧ bits ≠ 192 ∧ bits ≠ 256 then some (.unsupportedAlgorithm s!"AES-GCM-{bits}")
  else if key.length * 8 ≠ bits then some (.invalidKey .cipherKey)
  else none

def encrypt (a : Algorithm) (key : Jwk) (entropy : Entropy) (plaintext : Bytes) :
    Except Error Bytes :=
  match a, key.material with
  | .rsaOaep hash, .rsa shown _ => do
      let key ← shown.numbers
      match key.encrypt hash (entropy.take hash.size) plaintext with
      | .ok ciphertext => return ciphertext
      | .error fault => .error (.cryptoFailure (.oaepEncrypt fault))
  | .aesGcm bits iv aad tagLength, .oct k =>
      match cipherFault? bits iv tagLength k with
      | some e => .error e
      | none => .ok (Gcm.encrypt k iv aad plaintext)
  | _, _ => .error (a.cannotEncrypt key "encrypt")

def decrypt (a : Algorithm) (key : Jwk) (ciphertext : Bytes) : Except Error Bytes :=
  match a, key.material with
  | .rsaOaep hash, .rsa shown (some secret) => do
      let key ← shown.privateNumbers secret
      match key.decrypt hash ciphertext with
      | .ok plaintext => return plaintext
      | .error fault => .error (.cryptoFailure (.oaepDecrypt fault))
  | .aesGcm bits iv aad tagLength, .oct k =>
      match cipherFault? bits iv tagLength k with
      | some e => .error e
      | none =>
          match Gcm.decrypt? k iv aad ciphertext with
          | some plaintext => .ok plaintext
          | none => .error (.cryptoFailure .authentication)
  | _, _ => .error (a.cannotEncrypt key "decrypt")

end JoseTokens.Algorithm
