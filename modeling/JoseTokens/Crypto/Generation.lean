import JoseTokens.Crypto.Entropy
import JoseTokens.Crypto.KeyRequest
import JoseTokens.Key.Primitive

namespace JoseTokens

namespace Entropy

def scalar? : Nat → Entropy → Option Nat
  | 0, _ => none
  | fuel + 1, e =>
      match Secp256k1.scalar? (e.take 32) with
      | some d => some d
      | none => scalar? fuel (e.drop 32)

def primeCandidate (e : Entropy) (bits : Nat) : Nat :=
  let n := Bytes.toNat (e.take ((bits + 7) / 8)) % Nat.pow 2 (bits - 2) + 3 * Nat.pow 2 (bits - 2)
  if n % 2 = 0 then n + 1 else n

def prime? (bits other : Nat) : Nat → Entropy → Option Nat
  | 0, _ => none
  | fuel + 1, e =>
      let n := e.primeCandidate bits
      if n ≠ other ∧ Number.isProbablePrime n ∧ (n - 1) % KeyRequest.publicExponent ≠ 0 then some n
      else prime? bits other fuel (e.drop ((bits + 7) / 8))

end Entropy

namespace Rsa

def searchLimit : Nat := Nat.pow 2 32

def generate (bits : Nat) (entropy : Entropy) : Except Fault PrivateKey :=
  let half := bits / 2
  if half < 6 then .error .tooFewPrimes
  else
    match entropy.left.prime? half 0 searchLimit with
    | none => .error .tooFewPrimes
    | some p =>
        match entropy.right.prime? (bits - half) p searchLimit with
        | none => .error .tooFewPrimes
        | some q => ofPrimes p q KeyRequest.publicExponent

end Rsa

namespace KeyRequest

def generate (r : KeyRequest) (entropy : Entropy) : Except Error Jwk :=
  match r with
  | .ecdsa curve =>
      match Curve.ofName? curve with
      | some .secp256k1 =>
          match entropy.scalar? Rsa.searchLimit with
          | some d => .ok (Jwk.withAlg { material := .ofScalar d } r.algorithm)
          | none => .error (.cryptoFailure .scalarsExhausted)
      | _ => .error (.unsupportedCurve curve)
  | .eddsa => .ok (Jwk.withAlg { material := .ofSeed (entropy.take 32) } r.algorithm)
  | .rsa _ bits =>
      match Rsa.generate (bits.getD defaultModulusBits) entropy with
      | .error fault => .error (.cryptoFailure (.rsaGeneration fault))
      | .ok key => (Material.ofRsa key).map fun material => Jwk.withAlg { material } r.algorithm
  | .secret algorithm =>
      match secretSize? algorithm with
      | some size => .ok ((Jwk.oct (entropy.take size)).withAlg r.algorithm)
      | none => .error (.unsupportedAlgorithm algorithm)

end KeyRequest

end JoseTokens
