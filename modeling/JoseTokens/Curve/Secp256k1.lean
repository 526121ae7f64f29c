import JoseTokens.Bytes
import JoseTokens.Number.Modular

namespace JoseTokens.Secp256k1

def p : Nat :=
  0xfffffffffffffffffffffffffffffffffffffffffffffffffffffffefffffc2f

def n : Nat :=
  0xfffffffffffffffffffffffffffffffebaaedce6af48a03bbfd25e8cd0364141

structure Point where
  x : Nat
  y : Nat
  deriving DecidableEq, Repr

def generator : Point where
  x := 0x79be667ef9dcbbac55a06295ce870b07029bfcdb2dce28d959f2815b16f81798
  y := 0x483ada7726a3c4655da4fbfc0e1108a8fd17b448a68554199c47d08ffb10d4b8

def onCurve (q : Point) : Bool :=
  decide (q.x < p) && decide (q.y < p) && q.y * q.y % p == (q.x * q.x * q.x + 7) % p

structure Jacobian where
  x : Nat
  y : Nat
  z : Nat
  deriving DecidableEq, Repr

namespace Jacobian

def infinity : Jacobian :=
  ⟨1, 1, 0⟩

def ofPoint (q : Point) : Jacobian :=
  ⟨q.x, q.y, 1⟩

def sub (a b : Nat) : Nat :=
  (a + (p - b % p)) % p

def double (q : Jacobian) : Jacobian :=
  if q.y = 0 ∨ q.z = 0 then infinity
  else
    let yy := q.y * q.y % p
    let s := 4 * q.x * yy % p
    let m := 3 * q.x * q.x % p
    let x := sub (m * m) (2 * s)
    ⟨x, sub (m * sub s x) (8 * yy * yy), 2 * q.y * q.z % p⟩

def add (q r : Jacobian) : Jacobian :=
  if q.z = 0 then r
  else if r.z = 0 then q
  else
    let qz2 := q.z * q.z % p
    let rz2 := r.z * r.z % p
    let u1 := q.x * rz2 % p
    let u2 := r.x * qz2 % p
    let s1 := q.y * rz2 * r.z % p
    let s2 := r.y * qz2 * q.z % p
    if u1 = u2 then
      if s1 = s2 then double q else infinity
    else
      let h := sub u2 u1
      let i := sub s2 s1
      let h2 := h * h % p
      let h3 := h * h2 % p
      let v := u1 * h2 % p
      let x := sub (i * i) (h3 + 2 * v)
      ⟨x, sub (i * sub v x) (s1 * h3), h * q.z * r.z % p⟩

def mulWithin : Nat → Nat → Jacobian → Jacobian → Jacobian
  | 0, _, _, total => total
  | bits + 1, k, q, total =>
      mulWithin bits (k / 2) q.double (if k % 2 = 1 then total.add q else total)

def mul (k : Nat) (q : Jacobian) : Jacobian :=
  mulWithin 256 k q infinity

def toPoint? (q : Jacobian) : Option Point :=
  if q.z = 0 then none
  else
    let w := Number.powMod q.z (p - 2) p
    let w2 := w * w % p
    some ⟨q.x * w2 % p, q.y * w2 * w % p⟩

end Jacobian

def publicPoint? (d : Nat) : Option Point :=
  ((Jacobian.ofPoint generator).mul d).toPoint?

def scalar? (bytes : Bytes) : Option Nat :=
  let d := Bytes.toNat bytes
  if 24 ≤ bytes.length ∧ bytes.length ≤ 32 ∧ 0 < d ∧ d < n then some d else none

def point? (x y : Bytes) : Option Point :=
  let q : Point := ⟨Bytes.toNat x, Bytes.toNat y⟩
  if onCurve q then some q else none

end JoseTokens.Secp256k1
