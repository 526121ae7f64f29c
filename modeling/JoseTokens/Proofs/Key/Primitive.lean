import JoseTokens.Key.Primitive

namespace JoseTokens

namespace Secp256k1

theorem scalar?_eq_some_iff {bytes : Bytes} {k : Nat} : scalar? bytes = some k ↔
    (24 ≤ bytes.length ∧ bytes.length ≤ 32 ∧ 0 < Bytes.toNat bytes ∧ Bytes.toNat bytes < n) ∧
      Bytes.toNat bytes = k := by
  rw [scalar?]
  simp only [Option.ite_none_right_eq_some, Option.some.injEq]

theorem point?_eq_some_iff {x y : Bytes} {q : Point} : point? x y = some q ↔
    onCurve ⟨Bytes.toNat x, Bytes.toNat y⟩ = true ∧ ⟨Bytes.toNat x, Bytes.toNat y⟩ = q := by
  rw [point?]
  simp only [Option.ite_none_right_eq_some, Option.some.injEq]

end Secp256k1

namespace EcPublic

variable {shown : EcPublic}

theorem scalar_eq_ok_iff {d : Bytes} {k : Nat} : shown.scalar d = .ok k ↔
    requireCurve .secp256k1 shown.curve = .ok () ∧ Secp256k1.scalar? d = some k := by
  rw [scalar]
  cases requireCurve .secp256k1 shown.curve with
  | error e => simp [bind, Except.bind]
  | ok _ => cases Secp256k1.scalar? d <;> simp [bind, Except.bind, pure, Except.pure]

theorem point_eq_ok_iff {q : Secp256k1.Point} : shown.point = .ok q ↔
    requireCurve .secp256k1 shown.curve = .ok () ∧ (shown.x.length = 32 ∧ shown.y.length = 32) ∧
      Secp256k1.point? shown.x shown.y = some q := by
  rw [point]
  cases requireCurve .secp256k1 shown.curve with
  | error e => simp [bind, Except.bind]
  | ok _ =>
      by_cases hx : shown.x.length = 32 <;> by_cases hy : shown.y.length = 32 <;>
        cases Secp256k1.point? shown.x shown.y <;>
          simp [bind, Except.bind, pure, Except.pure, hx, hy]

end EcPublic

namespace OkpPublic

variable {shown : OkpPublic}

theorem seed_eq_ok_iff {d seed : Bytes} : shown.seed d = .ok seed ↔
    requireCurve .ed25519 shown.curve = .ok () ∧ d.length = 32 ∧ d = seed := by
  rw [OkpPublic.seed]
  cases requireCurve .ed25519 shown.curve with
  | error e => simp [bind, Except.bind]
  | ok _ => by_cases hd : d.length = 32 <;> simp [bind, Except.bind, pure, Except.pure, hd]

theorem point_eq_ok_iff {q : Ed25519.Point} : shown.point = .ok q ↔
    requireCurve .ed25519 shown.curve = .ok () ∧ shown.x.length = 32 ∧
      Ed25519.Point.decompress? shown.x = some q := by
  rw [point]
  cases requireCurve .ed25519 shown.curve with
  | error e => simp [bind, Except.bind]
  | ok _ =>
      by_cases hx : shown.x.length = 32 <;> cases Ed25519.Point.decompress? shown.x <;>
        simp [bind, Except.bind, pure, Except.pure, hx]

end OkpPublic

namespace RsaPublic

variable {shown : RsaPublic}

theorem numbers_eq_ok_iff {key : Rsa.PublicKey} : shown.numbers = .ok key ↔
    Rsa.bitLength (Bytes.toNat shown.n) ≤ Rsa.PublicKey.maxBits ∧
      (⟨Bytes.toNat shown.n, Bytes.toNat shown.e⟩ : Rsa.PublicKey).fault? = none ∧
      ⟨Bytes.toNat shown.n, Bytes.toNat shown.e⟩ = key := by
  rw [numbers, Rsa.PublicKey.check]
  by_cases hbits : Rsa.PublicKey.maxBits < Rsa.bitLength (Bytes.toNat shown.n)
  · simp [hbits, Nat.not_le.mpr hbits]
  · cases (⟨Bytes.toNat shown.n, Bytes.toNat shown.e⟩ : Rsa.PublicKey).fault? <;>
      simp [hbits, Nat.not_lt.mp hbits]

theorem privateNumbers_eq_ok_iff {secret : RsaSecret} {key : Rsa.PrivateKey} :
    shown.privateNumbers secret = .ok key ↔
      (⟨Bytes.toNat shown.n, Bytes.toNat shown.e, Bytes.toNat secret.d,
        [Bytes.toNat secret.p, Bytes.toNat secret.q]⟩ : Rsa.PrivateKey).check = .ok key := by
  rw [privateNumbers]
  split <;> simp_all

end RsaPublic

end JoseTokens
