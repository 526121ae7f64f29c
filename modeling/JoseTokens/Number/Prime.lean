import JoseTokens.Number.Modular

namespace JoseTokens.Number

def smallPrimes : List Nat :=
  [2, 3, 5, 7, 11, 13, 17, 19, 23, 29, 31, 37, 41, 43, 47, 53, 59, 61, 67, 71, 73, 79, 83, 89, 97,
    101, 103, 107, 109, 113, 127, 131, 137, 139, 149, 151, 157, 163, 167, 173, 179, 181, 191, 193,
    197, 199, 211, 223, 227, 229, 233, 239, 241, 251]

def bases : List Nat :=
  smallPrimes.take 20

def splitTwos : Nat → Nat → Nat × Nat
  | 0, n => (0, n)
  | fuel + 1, n =>
      if n % 2 = 0 then
        let (twos, odd) := splitTwos fuel (n / 2)
        (twos + 1, odd)
      else (0, n)

def reachesMinusOne : Nat → Nat → Nat → Bool
  | 0, _, _ => false
  | count + 1, n, x => x == n - 1 || reachesMinusOne count n (x * x % n)

def passes (n twos odd base : Nat) : Bool :=
  let x := powMod base odd n
  x == 1 || reachesMinusOne twos n x

def jacobiWithin : Nat → Nat → Nat → Int
  | 0, _, _ => 0
  | fuel + 1, a, n =>
      let rest := a % n
      if rest = 0 then if n = 1 then 1 else 0
      else
        let (twos, odd) := splitTwos rest.log2 rest
        let ofTwos := if twos % 2 = 1 ∧ (n % 8 = 3 ∨ n % 8 = 5) then -1 else 1
        let ofOdd := if odd % 4 = 3 ∧ n % 4 = 3 then -1 else 1
        ofTwos * ofOdd * jacobiWithin fuel n odd

def jacobi (a n : Nat) : Int :=
  jacobiWithin (2 * n.log2 + 2) a n

/-- The terms `k` and `k + 1` of the sequence 2, b, ... of Lucas, in which a term is `b` times the
one before less the one before that, modulo `n`. -/
def lucasPairWithin (n b : Nat) : Nat → Nat → Nat × Nat
  | 0, _ => (2 % n, b % n)
  | fuel + 1, k =>
      if k = 0 then (2 % n, b % n)
      else
        let (v, next) := lucasPairWithin n b fuel (k / 2)
        if k % 2 = 1 then ((v * next + n - b) % n, (next * next + n - 2) % n)
        else ((v * v + n - 2) % n, (v * next + n - b) % n)

def lucasPair (n b k : Nat) : Nat × Nat :=
  lucasPairWithin n b (k.log2 + 1) k

def reachesZero (n : Nat) : Nat → Nat → Bool
  | 0, _ => false
  | count + 1, v => v == 0 || reachesZero n count ((v * v + n - 2) % n)

def passesSequence (n b : Nat) : Bool :=
  let (twos, odd) := splitTwos (n + 1).log2 (n + 1)
  let (v, next) := lucasPair n b odd
  (v == 2 || v == n - 2) && b * v % n == 2 * next % n || reachesZero n (twos - 1) v

def passesLucasFrom (n : Nat) : Nat → Nat → Bool
  | 0, _ => false
  | fuel + 1, b =>
      let symbol := jacobi (b * b - 4) n
      if symbol = -1 then passesSequence n b
      else if symbol = 0 then n == b + 2
      else passesLucasFrom n fuel (b + 1)

def passesLucas (n : Nat) : Bool :=
  passesLucasFrom n 9998 3

def isProbablePrime (n : Nat) : Bool :=
  if n < 2 then false
  else if smallPrimes.contains n then true
  else if smallPrimes.any fun p => n % p == 0 then false
  else
    let (twos, odd) := splitTwos n.log2 (n - 1)
    bases.all (passes n twos odd) && passesLucas n

end JoseTokens.Number
