import JoseTokens.Hash.Name
import JoseTokens.Number.Modular

namespace JoseTokens.Ed25519

def p : Nat :=
  Nat.pow 2 255 - 19

def order : Nat :=
  Nat.pow 2 252 + 27742317777372353535851937790883648493

def d : Nat :=
  37095705934669439343138083508754565189542113879843219016388785533085940283555

def rootOfMinusOne : Nat :=
  19681161376707505956807079304988542015446066515923890162744021073123829784752

structure Point where
  x : Nat
  y : Nat
  z : Nat
  t : Nat
  deriving DecidableEq, Repr

def sub (a b : Nat) : Nat :=
  (a + (p - b % p)) % p

namespace Point

def identity : Point :=
  ⟨0, 1, 1, 0⟩

def ofAffine (x y : Nat) : Point :=
  ⟨x, y, 1, x * y % p⟩

def base : Point :=
  ofAffine
    15112221349535400772501151409588531511454012693041857206046113283949847762202
    46316835694926478169428394003475163141307993866256225615783033603165251855960

def add (a b : Point) : Point :=
  let m := sub a.y a.x * sub b.y b.x % p
  let n := (a.y + a.x) * (b.y + b.x) % p
  let c := 2 * a.t * d % p * b.t % p
  let z := 2 * a.z * b.z % p
  let e := sub n m
  let f := sub z c
  let g := (z + c) % p
  let h := (n + m) % p
  ⟨e * f % p, g * h % p, f * g % p, e * h % p⟩

def neg (a : Point) : Point :=
  ⟨sub 0 a.x, a.y, a.z, sub 0 a.t⟩

def mulWithin : Nat → Nat → Point → Point → Point
  | 0, _, _, total => total
  | bits + 1, k, a, total =>
      mulWithin bits (k / 2) (a.add a) (if k % 2 = 1 then total.add a else total)

def mul (k : Nat) (a : Point) : Point :=
  mulWithin 256 k a identity

def compress (a : Point) : Bytes :=
  let w := Number.powMod a.z (p - 2) p
  let x := a.x * w % p
  let y := a.y * w % p
  Bytes.ofNatLittle 32 (y + Nat.pow 2 255 * (x % 2))

def evenRoot? (u v : Nat) : Option Nat :=
  let v3 := v * v % p * v % p
  let v7 := v3 * v3 % p * v % p
  let r := u * v3 % p * Number.powMod (u * v7 % p) ((p - 5) / 8) p % p
  let square := v * r % p * r % p
  let root? :=
    if square = u % p then some r
    else if square = sub 0 u then some (r * rootOfMinusOne % p)
    else none
  root?.map fun r => if r % 2 = 1 then p - r else r

def decompress? (bytes : Bytes) : Option Point :=
  let number := Bytes.toNatLittle bytes
  let y := number % Nat.pow 2 255 % p
  let yy := y * y % p
  (evenRoot? (sub yy 1) ((d * yy + 1) % p)).map fun x =>
    ofAffine (if Nat.pow 2 255 ≤ number then sub 0 x else x) y

end Point

def expand (seed : Bytes) : Nat × Bytes :=
  let hash := HashName.sha512.digest seed
  let number := Bytes.toNatLittle (hash.take 32)
  (number % Nat.pow 2 254 / 8 * 8 + Nat.pow 2 254, hash.drop 32)

def publicKey (seed : Bytes) : Bytes :=
  (Point.base.mul (expand seed).1).compress

def hashNumber (bytes : Bytes) : Nat :=
  Bytes.toNatLittle (HashName.sha512.digest bytes) % order

def sign (seed data : Bytes) : Bytes :=
  let (a, salt) := expand seed
  let key := (Point.base.mul a).compress
  let r := hashNumber (salt ++ data)
  let start := (Point.base.mul r).compress
  let k := hashNumber (start ++ key ++ data)
  start ++ Bytes.ofNatLittle 32 ((r + k * a) % order)

def verify (key : Bytes) (point : Point) (signature data : Bytes) : Bool :=
  let start := signature.take 32
  let s := Bytes.toNatLittle (signature.drop 32)
  if signature.length = 64 ∧ s < order then
    let k := hashNumber (start ++ key ++ data)
    ((Point.base.mul s).add (point.neg.mul k)).compress == start
  else false

end JoseTokens.Ed25519
