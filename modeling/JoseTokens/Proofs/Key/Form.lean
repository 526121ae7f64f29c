import JoseTokens.Key.Form
import JoseTokens.Proofs.Json.Fields
import JoseTokens.Proofs.Json.Indented
import JoseTokens.Proofs.Text.Canonical

namespace JoseTokens

namespace Jwk

open Json Record

namespace Form

def Mean (name : String) : Bytes → (Form → Form) → Prop :=
  if name = "kty" then SetBy StringText fun keyType form => { form with keyType }
  else SetBy (OptionText StringText) (set name)

theorem mean_optional {name : String} (h : name ∈ optionalNames) :
    Mean name = SetBy (OptionText StringText) (set name) := by
  refine if_neg ?_
  rintro rfl
  revert h
  decide

theorem means_record (d : Nat) : record.Means d Mean := by
  intro m hm
  rcases List.mem_cons.mp hm with rfl | hm
  · exact parses_member (parses_text d) _ _ _
  · obtain ⟨name, hname, rfl⟩ := List.mem_map.mp hm
    change Parses _ (Mean name)
    rw [mean_optional hname]
    exact parses_member (parses_optional_text d) _ _ _

theorem nodup_names : record.names.Nodup := by decide

def FormText (text : Bytes) (form : Form) : Prop :=
  ∃ fields, Written record.names text fields ∧ record.Complete fields ∧
    Runs (FillStep Mean) ⟨"", []⟩ fields form

end Form

def KeyText (text : Bytes) (key : Jwk) : Prop :=
  ∃ form, Form.FormText text form ∧ form.toJwk = .ok key

theorem parses_read (d : Nat) : Parses (read (d + 1)) KeyText := by
  have hform := Record.parses_read (Form.means_record d) Form.nodup_names ⟨"", []⟩
  refine (hform.check (f := fun form => form.toJwk.mapError fun e => .refused e.message)
    fun bytes => ?_).congr fun text key => ?_
  · rw [read]
    cases Form.record.read ⟨"", []⟩ (d + 1) bytes with
    | error e => rfl
    | ok found =>
        obtain ⟨form, rest⟩ := found
        simp only [Except.bind]
        cases form.toJwk <;> rfl
  · have hok {form : Form} :
        (form.toJwk.mapError fun e => ReadError.refused e.message) = .ok key ↔
          form.toJwk = .ok key := by
      cases form.toJwk <;> simp [Except.mapError]
    simp only [hok]
    rfl

def stringMember (m : String × String) : String × Json :=
  (m.1, .string m.2)

def WrittenAs (field : String × Bytes) (m : String × String) : Prop :=
  field.1 = m.1 ∧ StringText field.2 m.2

theorem writtenAs_stringMember {write : String × Json → String × Bytes}
    (h : ∀ m, WrittenAs (write (stringMember m)) m) (ms : List (String × String)) :
    List.Forall₂ WrittenAs ((ms.map stringMember).map write) ms := by
  rw [List.forall₂_map_left_iff, List.forall₂_map_left_iff, List.forall₂_same]
  exact fun m _ => h m

theorem runs_texts {fields : List (String × Bytes)} {ms : List (String × String)}
    (hfields : List.Forall₂ WrittenAs fields ms) (hnames : ∀ m ∈ ms, m.1 ∈ Form.optionalNames)
    (form : Form) :
    Runs (FillStep Form.Mean) form fields { form with members := ms.reverse ++ form.members } := by
  induction hfields generalizing form with
  | nil => exact .nil form
  | @cons field m fields ms hfield _ ih =>
      obtain ⟨name, text⟩ := field
      obtain ⟨rfl, htext⟩ : name = m.1 ∧ StringText text m.2 := hfield
      obtain ⟨hname, hnames⟩ := List.forall_mem_cons.mp hnames
      have hset : Form.Mean m.1 text (Form.set m.1 (some m.2)) := by
        rw [Form.mean_optional hname]
        exact ⟨some m.2, htext, rfl⟩
      have hnext := ih hnames (Form.set m.1 (some m.2) form)
      rw [List.reverse_cons, List.append_assoc]
      exact .cons ⟨_, hset, rfl⟩ hnext

theorem formText_texts {text : Bytes} {fields : List (String × Bytes)} {keyType : String}
    {ms : List (String × String)} (htext : ObjectText text fields)
    (hfields : List.Forall₂ WrittenAs fields (("kty", keyType) :: ms))
    (hnames : (ms.map (·.1)).Sublist Form.optionalNames) :
    Form.FormText text ⟨keyType, ms.reverse⟩ := by
  have hall : ((("kty", keyType) :: ms).map (·.1)).Sublist Form.record.names :=
    hnames.cons_cons "kty"
  have hsame : fields.map (·.1) = (("kty", keyType) :: ms).map (·.1) := by
    rw [← List.forall₂_eq_eq_eq, List.forall₂_map_left_iff, List.forall₂_map_right_iff]
    exact hfields.imp fun _ _ hfield => hfield.1
  have hnamed := named_of_known htext
    (fun m hm => hall.subset (hsame ▸ List.mem_map_of_mem hm))
    (hsame ▸ Form.nodup_names.sublist hall)
  refine ⟨_, .inl hnamed, ?_, ?_⟩
  · intro m hm hrequired
    rcases List.mem_cons.mp hm with rfl | hm
    · rw [hsame]
      exact List.mem_cons_self
    · obtain ⟨name, -, rfl⟩ := List.mem_map.mp hm
      cases hrequired
  · cases hfields with
    | @cons field _ fields _ hkty hfields =>
        obtain ⟨name, value⟩ := field
        obtain ⟨rfl, hvalue⟩ : name = "kty" ∧ StringText value keyType := hkty
        have hset : Form.Mean "kty" value fun form => { form with keyType } :=
          ⟨keyType, hvalue, rfl⟩
        have hruns := runs_texts hfields
          (fun m hm => hnames.subset (List.mem_map_of_mem hm)) ⟨keyType, []⟩
        rw [List.append_nil] at hruns
        exact .cons ⟨_, hset, rfl⟩ hruns

def labelNames : List String :=
  ["kid", "use", "alg"]

def materialNames : List String :=
  ["crv", "x", "y", "n", "e", "d", "p", "q", "dp", "dq", "qi", "k"]

def labelTexts (labels : Labels) : List (String × String) :=
  (labels.kid.map ("kid", ·)).toList ++ (labels.purpose.map ("use", ·)).toList ++
    (labels.alg.map ("alg", ·)).toList

def octetsText (name : String) (bytes : Bytes) : String × String :=
  (name, Base64Url.encode bytes)

def materialTexts : Material → List (String × String)
  | .ec key d =>
      [("crv", key.curve), octetsText "x" key.x, octetsText "y" key.y] ++
        (d.map (octetsText "d")).toList
  | .rsa key none => [octetsText "n" key.n, octetsText "e" key.e]
  | .rsa key (some secret) =>
      [octetsText "n" key.n, octetsText "e" key.e, octetsText "d" secret.d,
        octetsText "p" secret.p, octetsText "q" secret.q, octetsText "dp" secret.dp,
        octetsText "dq" secret.dq, octetsText "qi" secret.qi]
  | .okp key d => [("crv", key.curve), octetsText "x" key.x] ++ (d.map (octetsText "d")).toList
  | .oct k => [octetsText "k" k]

def texts (key : Jwk) : List (String × String) :=
  labelTexts key.labels ++ materialTexts key.material

theorem labelMembers_eq (labels : Labels) :
    labelMembers labels = (labelTexts labels).map stringMember := by
  obtain ⟨kid, alg, purpose⟩ := labels
  cases kid <;> cases alg <;> cases purpose <;> rfl

theorem materialMembers_eq (material : Material) :
    materialMembers material = (materialTexts material).map stringMember := by
  cases material with
  | ec key d => cases d <;> rfl
  | rsa key secret => cases secret <;> rfl
  | okp key d => cases d <;> rfl
  | oct k => rfl

theorem toJson_eq (key : Jwk) :
    key.toJson = .object ((("kty", key.keyType.text) :: key.texts).map stringMember) := by
  rw [toJson, labelMembers_eq, materialMembers_eq, texts, List.map_cons, List.map_append,
    List.cons_append]
  rfl

theorem names_labelTexts (labels : Labels) :
    ((labelTexts labels).map (·.1)).Sublist labelNames := by
  obtain ⟨kid, alg, purpose⟩ := labels
  cases kid <;> cases alg <;> cases purpose <;> exact List.isSublist_iff_sublist.mp rfl

theorem names_materialTexts (material : Material) :
    ((materialTexts material).map (·.1)).Sublist materialNames := by
  rcases material with ⟨key, _ | d⟩ | ⟨key, _ | secret⟩ | ⟨key, _ | d⟩ | k <;>
    exact List.isSublist_iff_sublist.mp rfl

theorem names_texts (key : Jwk) : (key.texts.map (·.1)).Sublist Form.optionalNames := by
  rw [texts, List.map_append]
  exact (names_labelTexts key.labels).append (names_materialTexts key.material)

theorem nodup_texts (key : Jwk) : (key.texts.map (·.1)).Nodup :=
  List.Nodup.sublist key.names_texts (by decide)

theorem find?_labelTexts_other {name : String} (hname : name ∉ labelNames) (labels : Labels) :
    find? name (labelTexts labels) = none :=
  find?_eq_none fun h => hname ((names_labelTexts labels).subset h)

theorem find?_materialTexts_other {name : String} (hname : name ∉ materialNames)
    (material : Material) : find? name (materialTexts material) = none :=
  find?_eq_none fun h => hname ((names_materialTexts material).subset h)

def form (key : Jwk) : Form :=
  ⟨key.keyType.text, key.texts.reverse⟩

theorem find?_form (key : Jwk) (name : String) : key.form.find? name = find? name key.texts :=
  find?_reverse name key.nodup_texts

theorem find?_form_material (key : Jwk) {name : String} (hname : name ∉ labelNames) :
    key.form.find? name = find? name (materialTexts key.material) := by
  rw [find?_form, texts, find?_append, find?_labelTexts_other hname, Option.none_or]

theorem labels_form (key : Jwk) : key.form.labels = key.labels := by
  obtain ⟨⟨kid, alg, purpose⟩, material⟩ := key
  have hlabel {name : String} (hname : name ∉ materialNames) :
      (form ⟨⟨kid, alg, purpose⟩, material⟩).find? name =
        find? name (labelTexts ⟨kid, alg, purpose⟩) := by
    rw [find?_form, texts, find?_append, find?_materialTexts_other hname, Option.or_none]
  rw [Form.labels, hlabel (by decide), hlabel (by decide), hlabel (by decide)]
  cases kid <;> cases alg <;> cases purpose <;> rfl

theorem required_eq {form : Form} {name : String} {b : Bytes}
    (h : form.find? name = some (Base64Url.encode b)) : form.required name = .ok b := by
  rw [Form.required, h]
  exact decodeField_encode name b

theorem optional_eq {form : Form} {name : String} {bytes : Option Bytes}
    (h : form.find? name = bytes.map Base64Url.encode) : form.optional name = .ok bytes := by
  rw [Form.optional, h]
  cases bytes with
  | none => rfl
  | some bytes => simp only [Option.map_some, decodeField_encode, Except.map]

theorem material_form (key : Jwk) : key.form.material = .ok key.material := by
  obtain ⟨labels, material⟩ := key
  have hfind {name : String} (hname : name ∉ labelNames) :=
    find?_form_material ⟨labels, material⟩ hname
  cases material with
  | ec key d =>
      have hcurve : (form ⟨labels, .ec key d⟩).find? "crv" = some key.curve := hfind (by decide)
      have hx : (form ⟨labels, .ec key d⟩).required "x" = .ok key.x :=
        required_eq (hfind (by decide))
      have hy : (form ⟨labels, .ec key d⟩).required "y" = .ok key.y :=
        required_eq (hfind (by decide))
      have hd : (form ⟨labels, .ec key d⟩).optional "d" = .ok d :=
        optional_eq ((hfind (by decide)).trans (by cases d <;> rfl))
      change Form.ecMaterial _ = _
      rw [Form.ecMaterial, Form.curve, hcurve, hx, hy, hd]
      rfl
  | okp key d =>
      have hcurve : (form ⟨labels, .okp key d⟩).find? "crv" = some key.curve := hfind (by decide)
      have hx : (form ⟨labels, .okp key d⟩).required "x" = .ok key.x :=
        required_eq (hfind (by decide))
      have hd : (form ⟨labels, .okp key d⟩).optional "d" = .ok d :=
        optional_eq ((hfind (by decide)).trans (by cases d <;> rfl))
      change Form.okpMaterial _ = _
      rw [Form.okpMaterial, Form.curve, hcurve, hx, hd]
      rfl
  | rsa key secret =>
      have hn : (form ⟨labels, .rsa key secret⟩).required "n" = .ok key.n :=
        required_eq ((hfind (by decide)).trans (by cases secret <;> rfl))
      have he : (form ⟨labels, .rsa key secret⟩).required "e" = .ok key.e :=
        required_eq ((hfind (by decide)).trans (by cases secret <;> rfl))
      have hd : (form ⟨labels, .rsa key secret⟩).optional "d" = .ok (secret.map (·.d)) :=
        optional_eq ((hfind (by decide)).trans (by cases secret <;> rfl))
      change Form.rsaMaterial _ = _
      rw [Form.rsaMaterial, hn, he, hd]
      cases secret with
      | none => rfl
      | some secret =>
          have hsecret : (form ⟨labels, .rsa key (some secret)⟩).rsaSecret secret.d =
              .ok secret := by
            rw [Form.rsaSecret, required_eq (b := secret.p) (hfind (by decide)),
              required_eq (b := secret.q) (hfind (by decide)),
              required_eq (b := secret.dp) (hfind (by decide)),
              required_eq (b := secret.dq) (hfind (by decide)),
              required_eq (b := secret.qi) (hfind (by decide))]
            rfl
          simp only [bind, Except.bind, Option.map_some, hsecret]
          rfl
  | oct k =>
      change (Form.required _ "k").map Material.oct = _
      rw [required_eq (b := k) (hfind (by decide))]
      rfl

theorem toJwk_form (key : Jwk) : key.form.toJwk = .ok key := by
  rw [Form.toJwk, material_form, labels_form]
  rfl

theorem keyText_texts {text : Bytes} {fields : List (String × Bytes)} {key : Jwk}
    (htext : ObjectText text fields)
    (hfields : List.Forall₂ WrittenAs fields (("kty", key.keyType.text) :: key.texts)) :
    KeyText text key :=
  ⟨key.form, formText_texts htext hfields key.names_texts, key.toJwk_form⟩

theorem keyText_indented (level : Nat) (key : Jwk) :
    KeyText (indentedBytes level key.toJson) key := by
  rw [toJson_eq]
  exact keyText_texts (objectText_indented level _)
    (writtenAs_stringMember (fun m => ⟨rfl, stringText_quoted m.2⟩) _)

end Jwk

end JoseTokens
