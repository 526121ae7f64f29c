namespace JoseTokens.Number

def powModWithin : Nat → Nat → Nat → Nat → Nat
  | 0, _, _, m => 1 % m
  | bits + 1, b, e, m =>
      let rest := powModWithin bits (b * b % m) (e / 2) m
      if e % 2 = 1 then b * rest % m else rest

def powMod (b e m : Nat) : Nat :=
  powModWithin (e.log2 + 1) (b % m) e m

def bezout (a b : Nat) : Int × Int :=
  if _ : b = 0 then (1, 0)
  else
    let (x, y) := bezout b (a % b)
    (y, x - (a / b : Nat) * y)
termination_by b
decreasing_by exact Nat.mod_lt a (Nat.pos_of_ne_zero (by assumption))

def inverse? (a m : Nat) : Option Nat :=
  if Nat.gcd a m = 1 then some ((bezout a m).1.emod m).toNat else none

end JoseTokens.Number
