import JoseTokens.Rsa.Key

namespace JoseTokens.Rsa

def PublicKey.power (key : PublicKey) (m : Nat) : Nat :=
  Number.powMod m key.e key.n

namespace PrivateKey

def recombine (p q qi a b : Nat) : Nat :=
  (a + p - b % p) % p * qi % p * q + b

def power (key : PrivateKey) (c : Nat) : Nat :=
  match key.primes with
  | [p, q] =>
      match Number.inverse? q p with
      | some qi =>
          recombine p q qi (Number.powMod c (key.d % (p - 1)) p)
            (Number.powMod c (key.d % (q - 1)) q)
      | none => Number.powMod c key.d key.n
  | _ => Number.powMod c key.d key.n

def root (key : PrivateKey) (c : Nat) : Except Fault Nat :=
  let m := key.power c
  if key.toPublic.power m = c then .ok m else .error .inconsistent

end PrivateKey

end JoseTokens.Rsa
