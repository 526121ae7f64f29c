namespace JoseTokens

structure Double where
  negative : Bool
  magnitude : Nat
  finite : magnitude < 2047 * Nat.pow 2 52 := by decide
  deriving DecidableEq, Repr

namespace Double

def roundDiv (num den : Nat) : Nat :=
  let q := num / den
  let r := num % den
  if 2 * r < den then q
  else if den < 2 * r then q + 1
  else q + q % 2

def floorLog (num den : Nat) : Int :=
  let k : Int := (num.log2 : Int) - (den.log2 : Int)
  if den * Nat.pow 2 k.toNat ≤ num * Nat.pow 2 (-k).toNat then k else k - 1

def ofRatio? (num den : Nat) : Option Double :=
  if num = 0 then some ⟨false, 0, by decide⟩
  else
    let q := max (floorLog num den - 52) (-1074)
    let m := roundDiv (num * Nat.pow 2 (-q).toNat) (den * Nat.pow 2 q.toNat)
    let magnitude := (q + 1074).toNat * Nat.pow 2 52 + m
    if h : magnitude < 2047 * Nat.pow 2 52 then some ⟨false, magnitude, h⟩ else none

def significand (x : Double) : Nat :=
  if x.magnitude < Nat.pow 2 52 then x.magnitude else x.magnitude % Nat.pow 2 52 + Nat.pow 2 52

def exponent (x : Double) : Int :=
  if x.magnitude < Nat.pow 2 52 then -1074 else (x.magnitude / Nat.pow 2 52 : Nat) - 1075

def isZero (x : Double) : Bool :=
  x.magnitude == 0

def neg (x : Double) : Double :=
  { x with negative := !x.negative }

def ratio (x : Double) : Nat × Nat :=
  (x.significand * Nat.pow 2 x.exponent.toNat, Nat.pow 2 (-x.exponent).toNat)

def mul? (x y : Double) : Option Double :=
  ofRatio? (x.ratio.1 * y.ratio.1) (x.ratio.2 * y.ratio.2)

def div? (x y : Double) : Option Double :=
  ofRatio? (x.ratio.1 * y.ratio.2) (x.ratio.2 * y.ratio.1)

def same (x y : Double) : Bool :=
  x.magnitude == y.magnitude && (x.negative == y.negative || x.isZero)

def powerOfTen? (n : Nat) : Option Double :=
  ofRatio? (Nat.pow 10 n) 1

/-- The value of a decimal scaled step by step: the digits are rounded first, then multiplied or
divided by rounded powers of ten, at most `10 ^ 308` at a time. -/
def scale? : Nat → Double → Int → Option Double
  | 0, x, _ => some x
  | fuel + 1, x, e =>
      if x.isZero then some x
      else if 308 < e then none
      else if 0 ≤ e then (powerOfTen? e.toNat).bind x.mul?
      else if -308 ≤ e then (powerOfTen? (-e).toNat).bind x.div?
      else
        match (powerOfTen? 308).bind x.div? with
        | some y => scale? fuel y (e + 308)
        | none => none

def ofDecimal? (negative : Bool) (digits : Nat) (e : Int) : Option Double :=
  ((ofRatio? digits 1).bind (scale? 4 · e)).map fun x => { x with negative }

end Double

end JoseTokens
