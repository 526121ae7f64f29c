import JoseTokens.Key.Description
import JoseTokens.Key.Thumbprint
import JoseTokens.Proofs.Key.Form
import JoseTokens.Proofs.Outcome
import JoseTokens.Store.Options

namespace JoseTokens

namespace Material

def veiled : Material → Material
  | .ec shown d => .ec shown (d.map fun _ => [])
  | .rsa shown secret => .rsa shown (secret.map fun _ => ⟨[], [], [], [], [], []⟩)
  | .okp shown d => .okp shown (d.map fun _ => [])
  | .oct k => .oct k

theorem veiled_eq_iff {a b : Material} :
    a.veiled = b.veiled ↔ a.publicPart = b.publicPart ∧ a.isPrivate = b.isPrivate := by
  rcases a with ⟨shown, _ | d⟩ | ⟨shown, _ | secret⟩ | ⟨shown, _ | d⟩ | k <;>
    rcases b with ⟨shown', _ | d'⟩ | ⟨shown', _ | secret'⟩ | ⟨shown', _ | d'⟩ | k' <;>
      simp [veiled, publicPart, isPrivate]

end Material

namespace Jwk

structure SameShown (a b : Jwk) : Prop where
  labels : a.labels = b.labels
  shown : a.material.publicPart = b.material.publicPart
  halves : a.isPrivate = b.isPrivate

def veiled (key : Jwk) : Jwk :=
  { key with material := key.material.veiled }

theorem sameShown_iff {a b : Jwk} : a.SameShown b ↔ a.veiled = b.veiled := by
  obtain ⟨labels, material⟩ := a
  obtain ⟨labels', material'⟩ := b
  simp only [veiled, mk.injEq, Material.veiled_eq_iff]
  constructor
  · rintro ⟨hlabels, hshown, hhalves⟩
    exact ⟨hlabels, hshown, hhalves⟩
  · rintro ⟨hlabels, hshown, hhalves⟩
    exact ⟨hlabels, hshown, hhalves⟩

@[simp]
theorem kid?_veiled (key : Jwk) : key.veiled.kid? = key.kid? :=
  rfl

@[simp]
theorem keyType_veiled (key : Jwk) : key.veiled.keyType = key.keyType := by
  obtain ⟨labels, material⟩ := key
  cases material <;> rfl

@[simp]
theorem toPublic_veiled (key : Jwk) : key.veiled.toPublic = key.toPublic := by
  obtain ⟨labels, material⟩ := key
  cases material <;> rfl

@[simp]
theorem thumbprint_veiled (key : Jwk) : key.veiled.thumbprint = key.thumbprint := by
  obtain ⟨labels, material⟩ := key
  cases material <;> rfl

@[simp]
theorem description_veiled (key : Jwk) : key.veiled.description = key.description := by
  obtain ⟨labels, material⟩ := key
  rcases material with ⟨shown, _ | d⟩ | ⟨shown, _ | secret⟩ | ⟨shown, _ | d⟩ | k <;> rfl

theorem description_oct (labels : Labels) {k k' : Bytes} (h : k.length = k'.length) :
    (⟨labels, .oct k⟩ : Jwk).description = (⟨labels, .oct k'⟩ : Jwk).description := by
  simp only [description, Material.description, Material.formName, h]

def secretNames : List String :=
  ["d", "p", "q", "dp", "dq", "qi", "k"]

def shownNames : List String :=
  ["kty", "kid", "use", "alg", "crv", "x", "y", "n", "e"]

theorem names_public {key : Jwk} (h : key.isPrivate = false) :
    (("kty", key.keyType.text) :: key.texts).map (·.1) ⊆ shownNames := by
  obtain ⟨labels, material⟩ := key
  have hlabels : (labelTexts labels).map (·.1) ⊆ shownNames := by
    refine List.Subset.trans (names_labelTexts labels).subset ?_
    decide
  have hmaterial : (materialTexts material).map (·.1) ⊆ shownNames := by
    rcases material with ⟨shown, _ | d⟩ | ⟨shown, _ | secret⟩ | ⟨shown, _ | d⟩ | k
    · exact List.subset_def.mpr (by simp [materialTexts, octetsText, shownNames])
    · cases h
    · exact List.subset_def.mpr (by simp [materialTexts, octetsText, shownNames])
    · cases h
    · exact List.subset_def.mpr (by simp [materialTexts, octetsText, shownNames])
    · cases h
    · cases h
  rw [List.map_cons, texts, List.map_append]
  exact List.cons_subset.mpr ⟨.head _, List.append_subset.mpr ⟨hlabels, hmaterial⟩⟩

theorem text_public {key : Jwk} (h : key.isPrivate = false) : ∃ members,
    key.text = (Json.object members).compact ∧
      ∀ name ∈ secretNames, name ∉ members.map (·.1) := by
  refine ⟨_, congrArg Json.compact key.toJson_eq, fun name hname hmember => ?_⟩
  have hnames : (((("kty", key.keyType.text) :: key.texts).map stringMember).map (·.1)) =
      (("kty", key.keyType.text) :: key.texts).map (·.1) := by
    rw [List.map_map]
    rfl
  rw [hnames] at hmember
  have hdisjoint : ∀ name ∈ secretNames, name ∉ shownNames := by decide
  exact hdisjoint name hname (names_public h hmember)

theorem exists_public {key : Jwk} (h : key.isSymmetric = false) : ∃ shown members,
    key.toPublic = .ok shown ∧ shown.text = (Json.object members).compact ∧
      ∀ name ∈ secretNames, name ∉ members.map (·.1) := by
  have hpublic : key.toPublic = .ok { key with material := key.material.publicPart } := by
    rw [toPublic, h]
    rfl
  have hshown : isPrivate { key with material := key.material.publicPart } = false := by
    obtain ⟨labels, material⟩ := key
    cases material with
    | oct k => cases h
    | _ => rfl
  obtain ⟨members, htext, hnames⟩ := text_public hshown
  exact ⟨_, members, hpublic, htext, hnames⟩

section

variable {a b : Jwk} (h : a.SameShown b)

include h

theorem SameShown.toPublic_eq : a.toPublic = b.toPublic := by
  rw [← toPublic_veiled, sameShown_iff.mp h, toPublic_veiled]

theorem SameShown.thumbprint_eq : a.thumbprint = b.thumbprint := by
  rw [← thumbprint_veiled, sameShown_iff.mp h, thumbprint_veiled]

theorem SameShown.description_eq : a.description = b.description := by
  rw [← description_veiled, sameShown_iff.mp h, description_veiled]

end

end Jwk

namespace Container

def veiled (c : Container) : Container :=
  ⟨c.latest.veiled, c.older.map Jwk.veiled⟩

theorem keys_veiled (c : Container) : c.veiled.keys = c.keys.map Jwk.veiled :=
  rfl

def SameShown (c c' : Container) : Prop :=
  List.Forall₂ Jwk.SameShown c.keys c'.keys

theorem sameShown_iff {c c' : Container} : c.SameShown c' ↔ c.veiled = c'.veiled := by
  have halike : Jwk.SameShown = fun a b => a.veiled = b.veiled :=
    funext fun _ => funext fun _ => propext Jwk.sameShown_iff
  rw [SameShown, halike, forall₂_map_eq_iff, veiled, veiled, mk.injEq, keys, keys, List.map_cons,
    List.map_cons, List.cons.injEq]

theorem publicOnly_veiled (c : Container) : c.veiled.publicOnly = c.publicOnly := by
  have hpublic : Jwk.toPublic ∘ Jwk.veiled = Jwk.toPublic := funext Jwk.toPublic_veiled
  rw [publicOnly, publicOnly, veiled, List.mapM_map, hpublic, Jwk.toPublic_veiled]

theorem SameShown.publicOnly_eq {c c' : Container} (h : c.SameShown c') :
    c.publicOnly = c'.publicOnly := by
  rw [← publicOnly_veiled, sameShown_iff.mp h, publicOnly_veiled]

end Container

namespace StoreOptions

theorem versions_veiled (o : StoreOptions) (c : Container) :
    o.versions c.veiled = (o.versions c).veiled := by
  rw [versions, versions]
  split <;> rfl

theorem apply_veiled {o : StoreOptions} (ho : o.publicOnly = true) (c : Container) :
    o.apply c.veiled = o.apply c := by
  rw [apply, apply, if_pos ho, if_pos ho, versions_veiled, Container.publicOnly_veiled]

theorem listing_veiled (o : StoreOptions) (c : Container) : o.listing c.veiled = o.listing c := by
  have hkids : Jwk.kid? ∘ Jwk.veiled = Jwk.kid? := funext Jwk.kid?_veiled
  rw [listing, listing, versions_veiled, Container.kids, Container.kids, Container.keys_veiled,
    List.filterMap_map, hkids]
  exact congrArg (Listing.mk _) c.latest.keyType_veiled

end StoreOptions

end JoseTokens
