import JoseTokens.Decimal.Double

namespace JoseTokens.Double

/-- Twice the distances from the value down and up to the ends of the numbers that round to it,
in units of a quarter of the last place. -/
def slack (x : Double) : Nat × Nat :=
  if x.magnitude % Nat.pow 2 52 = 0 ∧ Nat.pow 2 52 < x.magnitude then (1, 2) else (2, 2)

def covers (x : Double) (d : Nat) (e : Int) : Bool :=
  let m := x.significand
  let q := x.exponent - 2
  let point := d * Nat.pow 10 e.toNat * Nat.pow 2 (-q).toNat
  let unit := Nat.pow 2 q.toNat * Nat.pow 10 (-e).toNat
  let low := (4 * m - x.slack.1) * unit
  let high := (4 * m + x.slack.2) * unit
  if m % 2 = 0 then decide (low ≤ point ∧ point ≤ high) else decide (low < point ∧ point < high)

def decimalExponent (x : Double) : Int :=
  let (num, den) := x.ratio
  let reaches (k : Int) : Bool := decide (den * Nat.pow 10 k.toNat ≤ num * Nat.pow 10 (-k).toNat)
  let guess : Int := Int.fdiv (((num.log2 : Int) - (den.log2 : Int)) * 30103) 100000 - 1
  let steps := (List.range 4).filter fun i : Nat => reaches (guess + i + 1)
  guess + steps.length

def candidate? (x : Double) (k : Int) (count : Nat) : Option (Nat × Int) :=
  let e := k - ((count : Int) - 1)
  let num := x.ratio.1 * Nat.pow 10 (-e).toNat
  let den := x.ratio.2 * Nat.pow 10 e.toNat
  let below := num / den
  let above := below + 1
  match x.covers below e, x.covers above e with
  | true, true => some (Double.roundDiv num den, e)
  | true, false => some (below, e)
  | false, true => some (above, e)
  | false, false => none

def shortest (x : Double) : Nat × Int :=
  let k := x.decimalExponent
  ((List.range 17).findSome? fun i => candidate? x k (i + 1)).getD
    (x.ratio.1 / x.ratio.2, 0)

def trimZeros : Nat → Nat × Int → Nat × Int
  | 0, p => p
  | fuel + 1, (d, e) => if d % 10 = 0 ∧ d ≠ 0 then trimZeros fuel (d / 10, e + 1) else (d, e)

def zeros (n : Nat) : String :=
  String.ofList (List.replicate n '0')

def scientific (digits : List Char) (k : Int) : String :=
  let head := String.ofList (digits.take 1)
  let tail := String.ofList (digits.drop 1)
  let point := if tail.isEmpty then "" else "."
  let sign := if k < 0 then "-" else "+"
  head ++ point ++ tail ++ "e" ++ sign ++ toString k.natAbs

def positional (digits : List Char) (k : Int) : String :=
  if k < 0 then
    "0." ++ zeros (-k - 1).toNat ++ String.ofList digits
  else
    let whole := k.toNat + 1
    let left := String.ofList (digits.take whole) ++ zeros (whole - digits.length)
    let right := String.ofList (digits.drop whole)
    left ++ "." ++ (if right.isEmpty then "0" else right)

def text (x : Double) : String :=
  let sign := if x.negative then "-" else ""
  if x.isZero then sign ++ "0.0"
  else
    let (d, e) := trimZeros 20 x.shortest
    let digits := Nat.toDigits 10 d
    let k := e + (digits.length : Int) - 1
    sign ++ (if -5 ≤ k ∧ k ≤ 15 then positional digits k else scientific digits k)

end JoseTokens.Double
