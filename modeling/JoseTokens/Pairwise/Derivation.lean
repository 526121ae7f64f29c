import JoseTokens.Crypto.KeyRequest
import JoseTokens.Key.Primitive

namespace JoseTokens.Pairwise

def minModulusBits : Nat := 512

inductive Target where
  | secp256k1
  | rsa (algorithm : String) (modulusBits : Nat)
  deriving DecidableEq, Repr

namespace Target

def ofRequest : KeyRequest → Except Error Target
  | .ecdsa curve =>
      match Curve.ofName? curve with
      | some .secp256k1 => .ok .secp256k1
      | _ => .error (.unsupportedCurve curve)
  | .rsa algorithm bits =>
      let bits := bits.getD KeyRequest.defaultModulusBits
      if bits < minModulusBits ∨ bits % 16 ≠ 0 then .error (.invalidArgument (.pairwiseModulus bits))
      else .ok (.rsa algorithm bits)
  | other => .error (.unsupportedPairwiseKey other.family)

end Target

def personaKey (seed : Bytes) (persona : String) : Bytes :=
  HashName.sha512.hmac seed (Bytes.ofText persona)

def peerSeed (personaKey : Bytes) (peer : String) : Bytes :=
  HashName.sha512.hmac personaKey (Bytes.ofText peer)

def counters : Nat := Nat.pow 2 32

def scalarCandidate (seed : Bytes) (counter : Nat) : Bytes :=
  HashName.sha256.hmac seed (Bytes.ofNat 4 counter)

def scalarFrom? (seed : Bytes) : Nat → Nat → Option Nat
  | 0, _ => none
  | fuel + 1, counter =>
      match Secp256k1.scalar? (scalarCandidate seed counter) with
      | some d => some d
      | none => scalarFrom? seed fuel (counter + 1)

def scalar? (seed : Bytes) : Option Nat :=
  scalarFrom? seed counters 0

def candidateStream (seed : Bytes) (index : UInt8) (counter size : Nat) : Bytes :=
  (List.range ((size + 63) / 64)).flatMap fun block =>
    HashName.sha512.hmac seed (index :: (Bytes.ofNat 4 counter ++ Bytes.ofNat 4 block))

def shapePrime (size : Nat) (n : Nat) : Nat :=
  let low := n % Nat.pow 2 (8 * size - 2) + 3 * Nat.pow 2 (8 * size - 2)
  low - low % 2 + 1

def primeCandidate (seed : Bytes) (index : UInt8) (counter size : Nat) : Nat :=
  shapePrime size (Bytes.toNat ((candidateStream seed index counter size).take size))

def isUsable (other : Option Nat) (n : Nat) : Bool :=
  some n != other && Number.isProbablePrime n && (n - 1) % KeyRequest.publicExponent != 0

def primeFrom? (seed : Bytes) (index : UInt8) (size : Nat) (other : Option Nat) :
    Nat → Nat → Option Nat
  | 0, _ => none
  | fuel + 1, counter =>
      let n := primeCandidate seed index counter size
      if isUsable other n then some n else primeFrom? seed index size other fuel (counter + 1)

def prime? (seed : Bytes) (index : UInt8) (size : Nat) (other : Option Nat) : Option Nat :=
  primeFrom? seed index size other counters 0

def rsaKey (seed : Bytes) (bits : Nat) : Except Error Rsa.PrivateKey :=
  let size := bits / 16
  match prime? seed 0 size none with
  | none => .error (.cryptoFailure .primesExhausted)
  | some p =>
      match prime? seed 1 size (some p) with
      | none => .error (.cryptoFailure .primesExhausted)
      | some q =>
          match Rsa.ofPrimes p q KeyRequest.publicExponent with
          | .ok key => .ok key
          | .error fault => .error (.cryptoFailure (.derivedPrimes fault))

def Target.derive (seed : Bytes) : Target → Except Error Jwk
  | .secp256k1 =>
      match scalar? seed with
      | some d => .ok (Jwk.withAlg { material := .ofScalar d } "ES256K")
      | none => .error (.cryptoFailure .scalarsExhausted)
  | .rsa algorithm bits => do
      let key ← rsaKey seed bits
      let material ← Material.ofRsa key
      return Jwk.withAlg { material } algorithm

end JoseTokens.Pairwise
