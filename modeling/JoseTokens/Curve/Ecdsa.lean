import JoseTokens.Curve.Secp256k1
import JoseTokens.Hash.Name

namespace JoseTokens.Secp256k1

structure Stream where
  key : Bytes
  value : Bytes

namespace Stream

def mac (s : Stream) (tail : Bytes) : Bytes :=
  HashName.sha256.hmac s.key (s.value ++ tail)

def absorb (s : Stream) (mark : UInt8) (seed : Bytes) : Stream :=
  let key := s.mac (mark :: seed)
  ⟨key, HashName.sha256.hmac key s.value⟩

def start (seed : Bytes) : Stream :=
  ((Stream.mk (List.replicate 32 0) (List.replicate 32 1)).absorb 0 seed).absorb 1 seed

def next? : Nat → Stream → Option Nat
  | 0, _ => none
  | fuel + 1, s =>
      let value := s.mac []
      let k := Bytes.toNat value
      if 0 < k ∧ k < n then some k
      else next? fuel ((Stream.mk s.key value).absorb 0 [])

end Stream

def messageNumber (data : Bytes) : Nat :=
  Bytes.toNat (HashName.sha256.digest data) % n

def nonce? (d z : Nat) : Option Nat :=
  (Stream.start (Bytes.ofNat 32 d ++ Bytes.ofNat 32 z)).next? 128

def lowHalf (s : Nat) : Nat :=
  if n / 2 < s then n - s else s

/-- The octets `r` and `s`; none in cases that have never been met. -/
def sign? (d : Nat) (data : Bytes) : Option Bytes := do
  let z := messageNumber data
  let k ← nonce? d z
  let point ← publicPoint? k
  let r := point.x % n
  let s := lowHalf (Number.powMod k (n - 2) n * (z + r * d) % n)
  if r = 0 ∨ s = 0 then none else some (Bytes.ofNat 32 r ++ Bytes.ofNat 32 s)

def recovered? (q : Point) (z r s : Nat) : Option Point :=
  let w := Number.powMod s (n - 2) n
  (((Jacobian.ofPoint generator).mul (z * w % n)).add
    ((Jacobian.ofPoint q).mul (r * w % n))).toPoint?

def verify (q : Point) (signature data : Bytes) : Bool :=
  let r := Bytes.toNat (signature.take 32)
  let s := Bytes.toNat (signature.drop 32)
  if signature.length = 64 ∧ 0 < r ∧ r < n ∧ 0 < s ∧ s < n then
    match recovered? q (messageNumber data) r (lowHalf s) with
    | some point => point.x % n == r
    | none => false
  else false

end JoseTokens.Secp256k1
