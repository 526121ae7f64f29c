import JoseTokens.Curve.Ed25519
import JoseTokens.Curve.Secp256k1
import JoseTokens.Key.Jwk

namespace JoseTokens

def requireCurve (wanted : Curve) (name : String) : Except Error Unit :=
  if Curve.ofName? name = some wanted then .ok () else .error (.unsupportedCurve name)

namespace EcPublic

def point (key : EcPublic) : Except Error Secp256k1.Point := do
  requireCurve .secp256k1 key.curve
  if key.x.length ≠ 32 ∨ key.y.length ≠ 32 then .error (.invalidKey .coordinateLength)
  else match Secp256k1.point? key.x key.y with
    | some q => return q
    | none => .error (.invalidKey .ecPublic)

def scalar (key : EcPublic) (d : Bytes) : Except Error Nat := do
  requireCurve .secp256k1 key.curve
  match Secp256k1.scalar? d with
  | some d => return d
  | none => .error (.invalidKey .ecPrivate)

end EcPublic

namespace OkpPublic

def point (key : OkpPublic) : Except Error Ed25519.Point := do
  requireCurve .ed25519 key.curve
  if key.x.length ≠ 32 then .error (.invalidKey .okpPublicLength)
  else match Ed25519.Point.decompress? key.x with
    | some q => return q
    | none => .error (.invalidKey .okpPublic)

def seed (key : OkpPublic) (d : Bytes) : Except Error Bytes := do
  requireCurve .ed25519 key.curve
  if d.length ≠ 32 then .error (.invalidKey .okpPrivateLength) else return d

end OkpPublic

namespace RsaPublic

def numbers (key : RsaPublic) : Except Error Rsa.PublicKey :=
  match Rsa.PublicKey.check ⟨Bytes.toNat key.n, Bytes.toNat key.e⟩ with
  | .ok key => .ok key
  | .error fault => .error (.invalidKey (.rsaPublic fault))

def privateNumbers (key : RsaPublic) (secret : RsaSecret) : Except Error Rsa.PrivateKey :=
  let numbers : Rsa.PrivateKey :=
    ⟨Bytes.toNat key.n, Bytes.toNat key.e, Bytes.toNat secret.d,
      [Bytes.toNat secret.p, Bytes.toNat secret.q]⟩
  match numbers.check with
  | .ok key => .ok key
  | .error fault => .error (.invalidKey (.rsaPrivate fault))

end RsaPublic

namespace Material

def ofScalar (d : Nat) : Material :=
  let q := (Secp256k1.publicPoint? d).getD ⟨0, 0⟩
  .ec ⟨Curve.secp256k1.text, Bytes.ofNat 32 q.x, Bytes.ofNat 32 q.y⟩ (some (Bytes.ofNat 32 d))

def ofSeed (seed : Bytes) : Material :=
  .okp ⟨Curve.ed25519.text, Ed25519.publicKey seed⟩ (some seed)

def ofRsa (key : Rsa.PrivateKey) : Except Error Material :=
  match key.primes with
  | [p, q] =>
      match Number.inverse? q p with
      | some qi =>
          .ok (.rsa ⟨Bytes.minimal key.n, Bytes.minimal key.e⟩
            (some {
              d := Bytes.minimal key.d
              p := Bytes.minimal p
              q := Bytes.minimal q
              dp := Bytes.minimal (key.d % (p - 1))
              dq := Bytes.minimal (key.d % (q - 1))
              qi := Bytes.minimal qi }))
      | none => .error (.invalidKey .rsaInverse)
  | _ => .error (.invalidKey .manyPrimes)

end Material

end JoseTokens
