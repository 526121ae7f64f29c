import JoseTokens.Proofs.Json.Compact
import JoseTokens.Proofs.Key.Form

namespace JoseTokens.Jwk

open Json

theorem ofJson_eq_ok_iff {bytes : Bytes} {key : Jwk} :
    ofJson bytes = .ok key ↔ DocumentOf KeyText bytes key :=
  (parses_read (maxDepth - 1)).document_eq_ok_iff

theorem keyText_bytes (key : Jwk) : KeyText key.toJson.bytes key := by
  rw [toJson_eq]
  exact keyText_texts (objectText_bytes _)
    (writtenAs_stringMember (fun m => ⟨rfl, stringText_quoted m.2⟩) _)

theorem ofJson_compact (key : Jwk) : ofJson (Bytes.ofText key.text) = .ok key := by
  rw [text, ofText_compact]
  exact ofJson_eq_ok_iff.mpr (.of_text key.keyText_bytes)

theorem ofJson_indented (key : Jwk) : ofJson (Bytes.ofText key.toJson.indented) = .ok key := by
  rw [Json.indented, Bytes.ofText_ofList]
  exact ofJson_eq_ok_iff.mpr (.of_text (key.keyText_indented 0))

namespace Form

theorem put_text {name : String} (hname : name ∈ optionalNames) (text : String) (form : Form) :
    put name (.string text) form = .ok { form with members := (name, text) :: form.members } := by
  have hkty : name ≠ "kty" := by
    rintro rfl
    revert hname
    decide
  rw [put, if_neg hkty, if_pos (List.contains_iff_mem.mpr hname)]
  · rfl
  · exact nofun

theorem putAll_texts {ms : List (String × String)} (hnames : ∀ m ∈ ms, m.1 ∈ optionalNames)
    (form : Form) :
    putAll form (ms.map stringMember) =
      .ok { form with members := ms.reverse ++ form.members } := by
  induction ms generalizing form with
  | nil => rfl
  | cons m ms ih =>
      obtain ⟨hname, hnames⟩ := List.forall_mem_cons.mp hnames
      rw [List.map_cons, stringMember, putAll, put_text hname]
      change putAll _ _ = _
      rw [ih hnames, List.reverse_cons, List.append_assoc]
      rfl

end Form

theorem ofValue_toJson (key : Jwk) : ofValue key.toJson = .ok key := by
  have hform : Form.ofValue key.toJson = .ok key.form := by
    have hnames : ∀ m ∈ key.texts, m.1 ∈ Form.optionalNames := fun m hm =>
      key.names_texts.subset (List.mem_map_of_mem hm)
    have hput := Form.putAll_texts hnames ⟨key.keyType.text, []⟩
    rw [List.append_nil] at hput
    rw [toJson_eq, Form.ofValue]
    change (Form.putAll ⟨key.keyType.text, []⟩ _).bind _ = _
    rw [hput]
    rfl
  simp only [ofValue, hform, toJwk_form]

theorem ofJson_text :
    (∀ key : Jwk, ofJson (Bytes.ofText key.text) = .ok key ∧
      ofJson (Bytes.ofText key.toJson.indented) = .ok key ∧ ofValue key.toJson = .ok key) ∧
    ∀ bytes key, ofJson bytes = .ok key →
      ofJson (Bytes.ofText key.text) = .ok key ∧
      ∀ back, ofJson (Bytes.ofText key.text) = .ok back →
        back.keyType = key.keyType ∧ back.isPrivate = key.isPrivate := by
  refine ⟨fun key => ⟨key.ofJson_compact, key.ofJson_indented, key.ofValue_toJson⟩,
    fun bytes key _ => ⟨key.ofJson_compact, fun back hback => ?_⟩⟩
  rw [ofJson_compact] at hback
  cases hback
  exact ⟨rfl, rfl⟩

def hollowText : Bytes :=
  Bytes.ofText "\x7b\"d\":\"\",\"x\":\"AA\",\"ext\":[],\"crv\":\"\\\"\",\"kty\":\"OKP\" \x7d"

theorem ofJson_text_hollow :
    let key : Jwk := ⟨{}, .okp ⟨"\"", [0]⟩ (some [])⟩
    ofJson hollowText = .ok key ∧ Bytes.ofText key.text ≠ hollowText ∧
      ofJson (Bytes.ofText key.text) = .ok key ∧ .okp = key.keyType ∧ true = key.isPrivate := by
  have hread : ofJson hollowText = .ok ⟨{}, .okp ⟨"\"", [0]⟩ (some [])⟩ := rfl
  obtain ⟨hback, hsame⟩ := ofJson_text.2 hollowText _ hread
  exact ⟨hread, by decide, hback, hsame _ hback⟩

end JoseTokens.Jwk
