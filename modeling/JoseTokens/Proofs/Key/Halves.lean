import JoseTokens.Crypto.Adapter
import JoseTokens.Proofs.Curve.Ed25519
import JoseTokens.Proofs.Curve.Secp256k1
import JoseTokens.Proofs.Key.Primitive
import JoseTokens.Proofs.Number.Octets
import JoseTokens.Proofs.Outcome
import JoseTokens.Proofs.Rsa.Key

namespace JoseTokens

structure Paired (shown : EcPublic) (d : Bytes) : Prop where
  length : d.length = 32
  lengthX : shown.x.length = 32
  lengthY : shown.y.length = 32
  isAt : Secp256k1.IsAt ⟨Bytes.toNat shown.x, Bytes.toNat shown.y⟩
    (Bytes.toNat d • Secp256k1.G)
  scalar : shown.scalar d = .ok (Bytes.toNat d)
  point : shown.point = .ok ⟨Bytes.toNat shown.x, Bytes.toNat shown.y⟩

theorem paired_ofScalar {d : Nat} (hpos : 0 < d) (hlt : d < Secp256k1.n) :
    ∃ shown, Material.ofScalar d = .ec shown (some (Bytes.ofNat 32 d)) ∧
      Paired shown (Bytes.ofNat 32 d) := by
  obtain ⟨q, hq, hat⟩ := Secp256k1.publicPoint?_spec hpos hlt
  have hread {k : Nat} (hk : k < 256 ^ 32) : Bytes.toNat (Bytes.ofNat 32 k) = k :=
    Bytes.toNat_ofNat hk
  have hd : Bytes.toNat (Bytes.ofNat 32 d) = d := hread (hlt.trans (by decide))
  have hx : Bytes.toNat (Bytes.ofNat 32 q.x) = q.x := hread (hat.x_lt.trans (by decide))
  have hy : Bytes.toNat (Bytes.ofNat 32 q.y) = q.y := hread (hat.y_lt.trans (by decide))
  refine ⟨⟨Curve.secp256k1.text, Bytes.ofNat 32 q.x, Bytes.ofNat 32 q.y⟩,
    by rw [Material.ofScalar, hq]; rfl, ?_⟩
  constructor
  case length => exact Bytes.length_ofNat ..
  case lengthX => exact Bytes.length_ofNat ..
  case lengthY => exact Bytes.length_ofNat ..
  case isAt => simpa only [hx, hy, hd] using hat
  case scalar =>
    rw [EcPublic.scalar_eq_ok_iff, Secp256k1.scalar?_eq_some_iff, Bytes.length_ofNat, hd]
    exact ⟨rfl, ⟨by decide, by decide, hpos, hlt⟩, rfl⟩
  case point =>
    rw [EcPublic.point_eq_ok_iff, Secp256k1.point?_eq_some_iff]
    refine ⟨rfl, ⟨Bytes.length_ofNat .., Bytes.length_ofNat ..⟩, ?_, rfl⟩
    simpa only [hx, hy] using hat.onCurve

namespace Algorithm

theorem bind_ecdsa {key : Jwk} {curve : Curve} {hash : HashName} {name : String}
    (hkey : key.keyType = .ec) (hcurve : key.curve? = some name)
    (hname : Curve.ofName? name = some curve) :
    (ecdsa curve hash).bind key =
      .ok { family := "ECDSA", keyType := .ec, curve := some curve, hash := some hash } := by
  simp [bind, needs?, misfit?, curveFault?, boundHash?, family, hkey, hcurve, hname]

end Algorithm

namespace Material

def Belongs : Material → Prop
  | .ec shown (some d) =>
      Secp256k1.IsAt ⟨Bytes.toNat shown.x, Bytes.toNat shown.y⟩ (Bytes.toNat d • Secp256k1.G)
  | .okp shown (some seed) => shown.x = Ed25519.publicKey seed
  | .rsa shown (some secret) =>
      Bytes.toNat shown.n = Bytes.toNat secret.p * Bytes.toNat secret.q ∧
        Bytes.toNat secret.d * Bytes.toNat shown.e ≡ 1 [MOD Bytes.toNat secret.p - 1] ∧
        Bytes.toNat secret.d * Bytes.toNat shown.e ≡ 1 [MOD Bytes.toNat secret.q - 1]
  | _ => False

/-- What an import of the private key leaves unchecked. -/
def matched : Material → Bool
  | .ec shown (some d) =>
      decide (shown.x.length = 32 ∧ shown.y.length = 32) &&
        Secp256k1.publicPoint? (Bytes.toNat d) ==
          some ⟨Bytes.toNat shown.x, Bytes.toNat shown.y⟩
  | .okp shown (some seed) => shown.x == Ed25519.publicKey seed
  | .rsa shown (some _) => decide (Rsa.bitLength (Bytes.toNat shown.n) ≤ Rsa.PublicKey.maxBits)
  | _ => false

end Material

namespace Software

def MatchedExactly (material : Material) : Prop :=
  checkMaterial material.publicPart = .ok () ∧ material.Belongs ↔ material.matched = true

theorem matchedExactly_ec {shown : EcPublic} {d : Bytes}
    (h : checkMaterial (.ec shown (some d)) = .ok ()) : MatchedExactly (.ec shown (some d)) := by
  obtain ⟨k, hscalar⟩ := map_unit_eq_ok_iff.mp h
  obtain ⟨hcurve, hk⟩ := EcPublic.scalar_eq_ok_iff.mp hscalar
  obtain ⟨⟨-, -, hpos, hlt⟩, -⟩ := Secp256k1.scalar?_eq_some_iff.mp hk
  obtain ⟨q, hpublic, hat⟩ := Secp256k1.publicPoint?_spec hpos hlt
  simp only [MatchedExactly, Material.publicPart, checkMaterial, map_unit_eq_ok_iff,
    EcPublic.point_eq_ok_iff, Secp256k1.point?_eq_some_iff, Material.Belongs, Material.matched,
    hpublic, Bool.and_eq_true, decide_eq_true_eq, beq_iff_eq, Option.some.injEq]
  constructor
  · rintro ⟨⟨_, -, hlength, -, -⟩, hbelongs⟩
    exact ⟨hlength, hat.point_eq hbelongs⟩
  · rintro ⟨hlength, rfl⟩
    exact ⟨⟨_, hcurve, hlength, hat.onCurve, rfl⟩, hat⟩

theorem matchedExactly_okp {shown : OkpPublic} {d : Bytes}
    (h : checkMaterial (.okp shown (some d)) = .ok ()) :
    MatchedExactly (.okp shown (some d)) := by
  obtain ⟨seed, hseed⟩ := map_unit_eq_ok_iff.mp h
  obtain ⟨hcurve, -, -⟩ := OkpPublic.seed_eq_ok_iff.mp hseed
  obtain ⟨P, q, -, hread, -⟩ := Ed25519.decompress?_publicKey d
  simp only [MatchedExactly, Material.publicPart, checkMaterial, map_unit_eq_ok_iff,
    OkpPublic.point_eq_ok_iff, Material.Belongs, Material.matched, beq_iff_eq]
  constructor
  · rintro ⟨-, hbelongs⟩
    exact hbelongs
  · intro hmatched
    rw [hmatched]
    exact ⟨⟨q, hcurve, Ed25519.length_publicKey d, hread⟩, rfl⟩

theorem belongs_rsa {shown : RsaPublic} {secret : RsaSecret}
    (h : checkMaterial (.rsa shown (some secret)) = .ok ()) :
    (Material.rsa shown (some secret)).Belongs ∧
      (⟨Bytes.toNat shown.n, Bytes.toNat shown.e⟩ : Rsa.PublicKey).fault? = none := by
  obtain ⟨key, hkey⟩ := map_unit_eq_ok_iff.mp h
  rw [RsaPublic.privateNumbers_eq_ok_iff, Rsa.PrivateKey.check_eq_ok_iff,
    Rsa.PrivateKey.fault?_eq_none_iff] at hkey
  obtain ⟨⟨hfault, -, -, hproduct, hp, hq⟩, -⟩ := hkey
  have hmod {m : Nat} (hm : Bytes.toNat secret.d * Bytes.toNat shown.e % m = 1) :
      Bytes.toNat secret.d * Bytes.toNat shown.e ≡ 1 [MOD m] := by
    rw [← hm]
    exact (Nat.mod_modEq _ _).symm
  exact ⟨⟨hproduct, hmod hp, hmod hq⟩, hfault⟩

theorem matchedExactly_rsa {shown : RsaPublic} {secret : RsaSecret}
    (h : checkMaterial (.rsa shown (some secret)) = .ok ()) :
    MatchedExactly (.rsa shown (some secret)) := by
  obtain ⟨hbelongs, hfault⟩ := belongs_rsa h
  simp only [MatchedExactly, Material.publicPart, checkMaterial, map_unit_eq_ok_iff,
    RsaPublic.numbers_eq_ok_iff, Material.matched, decide_eq_true_eq]
  constructor
  · rintro ⟨⟨_, hbits, -, -⟩, -⟩
    exact hbits
  · intro hbits
    exact ⟨⟨_, hbits, hfault, rfl⟩, hbelongs⟩

theorem matchedExactly_of_check {material : Material} (hprivate : material.isPrivate = true)
    (hpair : material.keyType ≠ .oct) (h : checkMaterial material = .ok ()) :
    MatchedExactly material := by
  rcases material with ⟨shown, _ | d⟩ | ⟨shown, _ | secret⟩ | ⟨shown, _ | d⟩ | k
  · cases hprivate
  · exact matchedExactly_ec h
  · cases hprivate
  · exact matchedExactly_rsa h
  · cases hprivate
  · exact matchedExactly_okp h
  · exact absurd rfl hpair

variable {binding : KeyBinding} {key : Jwk} {extractable : Bool} {kept : ImportedKey}

theorem importKey_eq_ok_iff : importKey binding key extractable = .ok kept ↔
    key.keyType = binding.keyType ∧ checkMaterial key.material = .ok () ∧
      checkCurve binding key = .ok () ∧ ⟨binding, key, extractable⟩ = kept := by
  rw [importKey]
  split
  next hother => simp [hother]
  next hsame =>
    cases checkMaterial key.material <;> cases checkCurve binding key <;>
      simp [bind, Except.bind, pure, Except.pure, not_not.mp hsame]

theorem importKey_publicPart (h : importKey binding key extractable = .ok kept) (again : Bool) :
    (∃ shown, importKey binding { key with material := key.material.publicPart } again =
      .ok shown) ↔ checkMaterial key.material.publicPart = .ok () := by
  obtain ⟨hfamily, -, hcurve, -⟩ := importKey_eq_ok_iff.mp h
  obtain ⟨labels, material⟩ := key
  have hfamily' : material.publicPart.keyType = binding.keyType := by
    cases material <;> exact hfamily
  have hcurve' : checkCurve binding ⟨labels, material.publicPart⟩ = .ok () := by
    cases material <;> exact hcurve
  constructor
  · rintro ⟨shown, hshown⟩
    exact (importKey_eq_ok_iff.mp hshown).2.1
  · intro hcheck
    exact ⟨_, importKey_eq_ok_iff.mpr ⟨hfamily', hcheck, hcurve', rfl⟩⟩

theorem importKey_halves (hprivate : key.isPrivate = true) (hpair : key.isSymmetric = false)
    (h : importKey binding key extractable = .ok kept) (again : Bool) :
    ∃ shown, key.toPublic = .ok shown ∧
      ((∃ imported, importKey binding shown again = .ok imported) ∧ key.material.Belongs ↔
        key.material.matched = true) ∧
      (key.keyType = .rsa → key.material.Belongs) := by
  have hpublic : key.toPublic = .ok { key with material := key.material.publicPart } := by
    rw [Jwk.toPublic, hpair]
    rfl
  have hoct : key.material.keyType ≠ .oct := by
    intro hoct
    rw [Jwk.isSymmetric, Jwk.keyType, hoct] at hpair
    cases hpair
  obtain ⟨-, hcheck, -, -⟩ := importKey_eq_ok_iff.mp h
  refine ⟨_, hpublic, ?_, ?_⟩
  · rw [importKey_publicPart h again]
    exact matchedExactly_of_check hprivate hoct hcheck
  · intro hrsa
    obtain ⟨labels, material⟩ := key
    rcases material with ⟨shown, d⟩ | ⟨shown, _ | secret⟩ | ⟨shown, d⟩ | k
    · cases hrsa
    · cases hprivate
    · exact (belongs_rsa hcheck).1
    · cases hrsa
    · cases hrsa

def ecBinding : KeyBinding where
  family := "ECDSA"
  keyType := .ec
  curve := some .secp256k1
  hash := some .sha256

def besideGenerator (d : Nat) : Jwk where
  material := .ec
    ⟨"secp256k1", Bytes.ofNat 32 Secp256k1.generator.x, Bytes.ofNat 32 Secp256k1.generator.y⟩
    (some (Bytes.ofNat 32 d))

theorem importKey_halves_one :
    importKey ecBinding (besideGenerator 1) true = .ok ⟨ecBinding, besideGenerator 1, true⟩ ∧
      (besideGenerator 1).material.matched = true ∧
      ∃ shown, (besideGenerator 1).toPublic = .ok shown ∧
        (∃ imported, importKey ecBinding shown false = .ok imported) ∧
        (besideGenerator 1).material.Belongs := by
  have himport : importKey ecBinding (besideGenerator 1) true =
      .ok ⟨ecBinding, besideGenerator 1, true⟩ := by decide +kernel
  have hmatched : (besideGenerator 1).material.matched = true := by decide +kernel
  obtain ⟨shown, hshown, hhalves, -⟩ := importKey_halves rfl rfl himport false
  exact ⟨himport, hmatched, shown, hshown, hhalves.mpr hmatched⟩

theorem not_importKey_halves :
    ¬ ∀ (binding : KeyBinding) (key : Jwk) (extractable : Bool) (kept : ImportedKey),
      key.isPrivate = true → key.isSymmetric = false →
        importKey binding key extractable = .ok kept →
          ∃ shown, key.toPublic = .ok shown ∧
            (∃ imported, importKey binding shown extractable = .ok imported) ∧
            key.material.Belongs := by
  intro hall
  have himport : importKey ecBinding (besideGenerator 2) true =
      .ok ⟨ecBinding, besideGenerator 2, true⟩ := by decide +kernel
  have hother : (besideGenerator 2).material.matched = false := by decide +kernel
  obtain ⟨shown, hshown, hagain, hbelongs⟩ := hall _ _ _ _ rfl rfl himport
  cases hshown
  have hmatched := (matchedExactly_ec (importKey_eq_ok_iff.mp himport).2.1).mp
    ⟨(importKey_publicPart himport true).mp hagain, hbelongs⟩
  exact absurd hmatched (Bool.eq_false_iff.mp hother)

end Software

end JoseTokens
