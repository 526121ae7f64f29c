import JoseTokens.Proofs.Json.Compact
import JoseTokens.Proofs.Key.PublicView

namespace JoseTokens

namespace Jwk

theorem portable_essentials (material : Material) :
    Json.Portable (.object (essentials material)) := by
  cases material <;>
    simp [essentials, octets, Json.Portable, Json.PortableMembers]

theorem essentials_inj {material material' : Material} :
    essentials material = essentials material' ↔ material.publicPart = material'.publicPart := by
  rcases material with ⟨⟨curve, x, y⟩, d⟩ | ⟨⟨n, e⟩, secret⟩ | ⟨⟨curve, x⟩, d⟩ | k <;>
    rcases material' with ⟨⟨curve', x', y'⟩, d'⟩ | ⟨⟨n', e'⟩, secret'⟩ | ⟨⟨curve', x'⟩, d'⟩ | k' <;>
      simp [essentials, octets, Material.publicPart, Base64Url.encode_inj, and_comm]

theorem canonical_inj {a b : Jwk} :
    a.canonical = b.canonical ↔ a.material.publicPart = b.material.publicPart := by
  rw [canonical, canonical,
    Json.compact_inj (portable_essentials a.material) (portable_essentials b.material),
    Json.object.injEq, essentials_inj]

example : canonical ⟨{}, .okp ⟨"a\",\"kty\":\"EC", [0]⟩ (some [7])⟩ =
    "\x7b\"crv\":\"a\\\",\\\"kty\\\":\\\"EC\",\"kty\":\"OKP\",\"x\":\"AA\"\x7d" := by
  decide

theorem thumbprint_inj {a b : Jwk} : a.thumbprint = b.thumbprint ↔
    HashName.sha256.digest (Bytes.ofText a.canonical) =
      HashName.sha256.digest (Bytes.ofText b.canonical) :=
  Base64Url.encode_inj

theorem thumbprint_identifies (a b : Jwk) :
    (a.canonical = b.canonical ↔ a.material.publicPart = b.material.publicPart) ∧
    (a.thumbprint = b.thumbprint ↔ a.material.publicPart = b.material.publicPart ∨
      (a.canonical ≠ b.canonical ∧
        HashName.sha256.digest (Bytes.ofText a.canonical) =
          HashName.sha256.digest (Bytes.ofText b.canonical))) ∧
    ∀ labels, (⟨labels, a.material.publicPart⟩ : Jwk).thumbprint = a.thumbprint := by
  refine ⟨canonical_inj, ?_, fun labels => ?_⟩
  · rw [thumbprint_inj, ← canonical_inj]
    by_cases hsame : a.canonical = b.canonical
    · simp only [hsame, true_or]
    · simp only [hsame, false_or, ne_eq, not_false_eq_true, true_and]
  · obtain ⟨own, material⟩ := a
    cases material <;> rfl

end Jwk

end JoseTokens
