import JoseTokens.Bytes
import JoseTokens.Number.Prime

namespace JoseTokens.Rsa

inductive Fault where
  | modulusTooLarge
  | exponentTooLarge
  | exponentTooSmall
  | invalidModulus
  | invalidExponent
  | invalidPrime
  | tooFewPrimes
  | messageTooLong
  | decryption
  | inconsistent
  deriving DecidableEq, Repr

def Fault.message : Fault → String
  | .modulusTooLarge => "modulus too large"
  | .exponentTooLarge => "public exponent too large"
  | .exponentTooSmall => "public exponent too small"
  | .invalidModulus => "invalid modulus"
  | .invalidExponent => "invalid exponent"
  | .invalidPrime => "invalid prime value"
  | .tooFewPrimes => "too few primes of given length to generate an RSA key"
  | .messageTooLong => "message too long"
  | .decryption => "decryption error"
  | .inconsistent => "internal error"

structure PublicKey where
  n : Nat
  e : Nat
  deriving DecidableEq, Repr

structure PrivateKey where
  n : Nat
  e : Nat
  d : Nat
  primes : List Nat
  deriving DecidableEq, Repr

def bitLength (n : Nat) : Nat :=
  if n = 0 then 0 else n.log2 + 1

namespace PublicKey

def maxBits : Nat := 4096

def fault? (key : PublicKey) : Option Fault :=
  if Nat.pow 2 64 ≤ key.e then some .exponentTooLarge
  else if key.n ≤ key.e ∨ key.n % 2 = 0 then some .invalidModulus
  else if key.e % 2 = 0 then some .invalidExponent
  else if key.e < 2 then some .exponentTooSmall
  else if Nat.pow 2 33 - 1 < key.e then some .exponentTooLarge
  else none

def check (key : PublicKey) : Except Fault PublicKey :=
  if maxBits < bitLength key.n then .error .modulusTooLarge
  else match key.fault? with
    | some fault => .error fault
    | none => .ok key

def size (key : PublicKey) : Nat :=
  Bytes.width key.n

end PublicKey

namespace PrivateKey

def toPublic (key : PrivateKey) : PublicKey :=
  ⟨key.n, key.e⟩

def fault? (key : PrivateKey) : Option Fault :=
  match key.toPublic.fault? with
  | some fault => some fault
  | none =>
      if key.primes.any (· ≤ 1) then some .invalidPrime
      else if key.primes.foldl (· * ·) 1 ≠ key.n then some .invalidModulus
      else if key.primes.all fun p => key.d * key.e % (p - 1) == 1 then none
      else some .invalidExponent

def check (key : PrivateKey) : Except Fault PrivateKey :=
  match key.fault? with
  | some fault => .error fault
  | none => .ok key

def size (key : PrivateKey) : Nat :=
  Bytes.width key.n

end PrivateKey

def ofPrimes (p q e : Nat) : Except Fault PrivateKey :=
  match Number.inverse? e (Nat.lcm (p - 1) (q - 1)) with
  | some d => PrivateKey.check ⟨p * q, e, d, [p, q]⟩
  | none => .error .invalidPrime

end JoseTokens.Rsa
