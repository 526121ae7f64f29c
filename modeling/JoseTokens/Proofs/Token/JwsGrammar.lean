import JoseTokens.Proofs.Json.Fields
import JoseTokens.Proofs.Token.JwsRoundTrip

namespace JoseTokens

open Json

abbrev Shape := List String → Bytes → List (String × Bytes) → Prop

def HeaderText (d : Nat) (text : Bytes) (h : Header) : Prop :=
  Denotes d text h.toJson

def ProtectedText (encoded : String) (p : Protected) : Prop :=
  (encoded = "" ∧ p = {}) ∨
    (encoded ≠ "" ∧ p.encoded = encoded ∧
      ∃ bytes, encoded = Base64Url.encode bytes ∧ DocumentOf (HeaderText maxDepth) bytes p.header)

def TextField : List (String × Bytes) → String → Option String → Prop :=
  Worth (OptionText StringText) none

def HeaderField (d : Nat) : List (String × Bytes) → String → Header → Prop :=
  Worth (HeaderText d) {}

def OctetsField (fields : List (String × Bytes)) (name : String) (bytes : Bytes) : Prop :=
  TextField fields name (some (Base64Url.encode bytes))

namespace Jws

def entryNames : List String :=
  ["protected", "header", "signature"]

def tokenNames : List String :=
  ["payload", "signatures", "protected", "header", "signature"]

structure EntryFields (d : Nat) (fields : List (String × Bytes)) (s : Signature) : Prop where
  protectedHeader : ∃ encoded, TextField fields "protected" encoded ∧
    ProtectedText (encoded.getD "") s.protectedHeader
  header : HeaderField d fields "header" s.header
  signature : OctetsField fields "signature" s.signature

def EntryText (shape : Shape) (d : Nat) (text : Bytes) (s : Signature) : Prop :=
  ∃ fields, shape entryNames text fields ∧ EntryFields d fields s

def EntriesText (shape : Shape) (d : Nat) (text : Bytes) (signatures : List Signature) : Prop :=
  ∃ items, ArrayText text items ∧ List.Forall₂ (EntryText shape d) items signatures

structure GeneralFields (shape : Shape) (fields : List (String × Bytes)) (t : Jws) : Prop where
  payload : OctetsField fields "payload" t.payload
  entries : Worth (OptionText (EntriesText shape entryLevels)) none fields "signatures"
    (some t.signatures)
  signed : t.signatures ≠ []
  protectedHeader : ∃ encoded, TextField fields "protected" encoded
  header : ∃ h, HeaderField (entryLevels + 2) fields "header" h
  signature : ∃ encoded, TextField fields "signature" encoded

structure FlatFields (fields : List (String × Bytes)) (t : Jws) : Prop where
  payload : OctetsField fields "payload" t.payload
  entries : find? "signatures" fields = none ∨ find? "signatures" fields = some nullText
  entry : ∃ s, t.signatures = [s] ∧ EntryFields (entryLevels + 2) fields s

def TokenText (shape : Shape) (text : Bytes) (t : Jws) : Prop :=
  ∃ fields, shape tokenNames text fields ∧ (GeneralFields shape fields t ∨ FlatFields fields t)

def Segmented (text : String) : Prop :=
  text.toList.head? ≠ some '\x7b' ∧ (segments text).length = 3

structure CompactParts (text : String) (t : Jws) (s : Signature) : Prop where
  pieces : segments text =
    [s.protectedHeader.encoded, Base64Url.encode t.payload, Base64Url.encode s.signature]
  protectedHeader : ProtectedText s.protectedHeader.encoded s.protectedHeader
  signatures : t.signatures = [s]
  header : s.header = {}
  signed : s.signature ≠ []

def TextOf (shape : Shape) (text : String) (t : Jws) : Prop :=
  (Segmented text ∧ ∃ s, CompactParts text t s) ∨
    (¬ Segmented text ∧ DocumentOf (TokenText shape) (Bytes.ofText text) t)

end Jws

theorem Header.parses_read (d : Nat) : Parses (read d) (HeaderText d) := by
  refine ((parses_map d).map Header.mk).congr fun text h => ⟨?_, fun htext => ⟨_, htext, rfl⟩⟩
  rintro ⟨members, htext, rfl⟩
  exact htext

theorem Header.ofJson_eq_ok_iff {bytes : Bytes} {h : Header} :
    ofJson bytes = .ok h ↔ DocumentOf (HeaderText maxDepth) bytes h :=
  (parses_read maxDepth).document_eq_ok_iff

theorem Protected.decode_eq_ok_iff {encoded : String} {p : Protected} :
    decode encoded = .ok p ↔ ProtectedText encoded p := by
  rw [decode]
  split
  next hempty =>
    have hencoded : encoded = "" := String.isEmpty_iff.mp hempty
    constructor
    · intro h
      cases h
      exact .inl ⟨hencoded, rfl⟩
    · rintro (⟨_, rfl⟩ | ⟨hne, _⟩)
      · rfl
      · exact absurd hencoded hne
  next hempty =>
    have hencoded : encoded ≠ "" := fun h => hempty (String.isEmpty_iff.mpr h)
    constructor
    · intro h
      obtain ⟨bytes, hbytes, h⟩ := bind_eq_ok h
      split at h
      next header hheader =>
        cases h
        exact .inr ⟨hencoded, rfl, bytes, decodeField_eq_ok_iff.mp hbytes,
          Header.ofJson_eq_ok_iff.mp hheader⟩
      · cases h
    · rintro (⟨hnone, _⟩ | ⟨_, rfl, bytes, hbytes, hheader⟩)
      · exact absurd hnone hencoded
      · have hread := Header.ofJson_eq_ok_iff.mpr hheader
        rw [decodeField_eq_ok_iff.mpr hbytes]
        simp only [bind, Except.bind, hread]
        rfl

section

variable {fields : List (String × Bytes)} {name : String}

theorem TextField.functional {x y : Option String} (hx : TextField fields name x)
    (hy : TextField fields name y) : x = y :=
  Worth.functional (P := OptionText StringText) (parses_optional_text 0).functional hx hy

theorem HeaderField.functional {d : Nat} {x y : Header} (hx : HeaderField d fields name x)
    (hy : HeaderField d fields name y) : x = y :=
  Worth.functional (P := HeaderText d) (Header.parses_read d).functional hx hy

end

namespace Jws

open Record

structure EntryFormFields (d : Nat) (fields : List (String × Bytes)) (f : EntryForm) : Prop where
  protectedText : TextField fields "protected" f.protectedText
  header : HeaderField d fields "header" f.header
  signature : TextField fields "signature" f.signature

def entrySlots (d : Nat) : List (String × (Bytes → (EntryForm → EntryForm) → Prop)) := [
  ("protected", SetBy (OptionText StringText) fun protectedText f => { f with protectedText }),
  ("header", SetBy (HeaderText d) fun header f => { f with header }),
  ("signature", SetBy (OptionText StringText) fun signature f => { f with signature })]

theorem nodup_entryNames : entryNames.Nodup := by decide

theorem means_entry (d : Nat) : entryRecord.Means d (Meaning (entrySlots d)) :=
  means_of_slots (.cons ⟨rfl, parses_member (parses_optional_text d) _ _ _⟩
    (.cons ⟨rfl, parses_member (Header.parses_read d) _ _ _⟩
      (.cons ⟨rfl, parses_member (parses_optional_text d) _ _ _⟩ .nil))) nodup_entryNames

section

variable {d : Nat} {fields : List (String × Bytes)} {f : EntryForm}

theorem entryFormFields_of_runs (hruns : Runs (FillStep (Meaning (entrySlots d))) {} fields f)
    (honce : (fields.map (·.1)).Nodup) : EntryFormFields d fields f where
  protectedText := worth_of_runs EntryForm.protectedText hruns honce nodup_entryNames (.head _)
    (fun _ _ => rfl) (.own (.other (fun _ _ => rfl) (.other (fun _ _ => rfl) .nil)))
  header := worth_of_runs EntryForm.header hruns honce nodup_entryNames (.tail _ (.head _))
    (fun _ _ => rfl) (.other (fun _ _ => rfl) (.own (.other (fun _ _ => rfl) .nil)))
  signature := worth_of_runs EntryForm.signature hruns honce nodup_entryNames
    (.tail _ (.tail _ (.head _))) (fun _ _ => rfl)
    (.other (fun _ _ => rfl) (.other (fun _ _ => rfl) (.own .nil)))

theorem EntryFormFields.functional {g : EntryForm} (hf : EntryFormFields d fields f)
    (hg : EntryFormFields d fields g) : f = g := by
  obtain ⟨protectedText, header, signature⟩ := f
  obtain rfl := hf.protectedText.functional hg.protectedText
  obtain rfl := hf.header.functional hg.header
  obtain rfl := hf.signature.functional hg.signature
  rfl

theorem runs_of_entryFormFields {text : Bytes} (hwritten : Written entryNames text fields)
    (h : EntryFormFields d fields f) :
    Runs (FillStep (Meaning (entrySlots d))) {} fields f := by
  have hmeaning : ∀ slot ∈ entrySlots d, ∀ text, find? slot.1 fields = some text →
      ∃ f, Meaning (entrySlots d) slot.1 text f := by
    simp only [entrySlots, List.forall_mem_cons]
    exact ⟨fun text => meaning_of_worth (.head _) h.protectedText,
      fun text => meaning_of_worth (.tail _ (.head _)) h.header,
      fun text => meaning_of_worth (.tail _ (.tail _ (.head _))) h.signature, by simp⟩
  obtain ⟨g, hg⟩ := exists_runs (entrySlots d) hwritten nodup_entryNames hmeaning {}
  have honce := hwritten.nodup nodup_entryNames
  rw [h.functional (entryFormFields_of_runs hg honce)]
  exact hg

end

theorem complete_of_free {σ : Type} {r : Record σ} (h : ∀ m ∈ r.members, m.required = false)
    (fields : List (String × Bytes)) : r.Complete fields := by
  intro m hm hrequired
  rw [h m hm] at hrequired
  cases hrequired

theorem parses_entry (d : Nat) :
    Parses (entryRecord.read {} (d + 1)) fun text f =>
      ∃ fields, Written entryNames text fields ∧ EntryFormFields d fields f := by
  refine (parses_read (means_entry d) nodup_entryNames {}).congr fun text f => ⟨?_, ?_⟩
  · rintro ⟨fields, hwritten, _, hruns⟩
    exact ⟨fields, hwritten, entryFormFields_of_runs hruns (hwritten.nodup nodup_entryNames)⟩
  · rintro ⟨fields, hwritten, hfields⟩
    exact ⟨fields, hwritten, complete_of_free (by decide) fields,
      runs_of_entryFormFields hwritten hfields⟩

theorem entryOf_eq_ok_iff {f : EntryForm} {s : Signature} :
    entryOf f = .ok s ↔ ProtectedText (f.protectedText.getD "") s.protectedHeader ∧
      s.header = f.header ∧ f.signature = some (Base64Url.encode s.signature) := by
  constructor
  · intro h
    rw [entryOf] at h
    split at h
    · cases h
    next text hsignature =>
      obtain ⟨p, hp, h⟩ := bind_eq_ok h
      obtain ⟨bytes, hbytes, h⟩ := bind_eq_ok h
      cases h
      exact ⟨Protected.decode_eq_ok_iff.mp hp, rfl,
        by rw [hsignature, decodeField_eq_ok_iff.mp hbytes]⟩
  · rintro ⟨hp, hheader, hsignature⟩
    rw [entryOf, hsignature]
    simp only [Protected.decode_eq_ok_iff.mpr hp, decodeField_encode, ← hheader]
    rfl

theorem entryFields_iff {d : Nat} {fields : List (String × Bytes)} {s : Signature} :
    EntryFields d fields s ↔ ∃ f, EntryFormFields d fields f ∧ entryOf f = .ok s := by
  constructor
  · rintro ⟨⟨encoded, htext, hprotected⟩, hheader, hsignature⟩
    exact ⟨⟨encoded, s.header, some (Base64Url.encode s.signature)⟩, ⟨htext, hheader, hsignature⟩,
      entryOf_eq_ok_iff.mpr ⟨hprotected, rfl, rfl⟩⟩
  · rintro ⟨f, ⟨htext, hheader, hsignature⟩, hentry⟩
    obtain ⟨hprotected, hh, hs⟩ := entryOf_eq_ok_iff.mp hentry
    rw [hs] at hsignature
    exact ⟨⟨_, htext, hprotected⟩, hh ▸ hheader, hsignature⟩

theorem entryText_iff {d : Nat} {text : Bytes} {s : Signature} :
    EntryText Written d text s ↔
      ∃ f, (∃ fields, Written entryNames text fields ∧ EntryFormFields d fields f) ∧
        entryOf f = .ok s := by
  constructor
  · rintro ⟨fields, hwritten, hfields⟩
    obtain ⟨f, hf, hentry⟩ := entryFields_iff.mp hfields
    exact ⟨f, ⟨fields, hwritten, hf⟩, hentry⟩
  · rintro ⟨f, ⟨fields, hwritten, hf⟩, hentry⟩
    exact ⟨fields, hwritten, entryFields_iff.mpr ⟨f, hf, hentry⟩⟩

def EntryFormText (d : Nat) (text : Bytes) (f : EntryForm) : Prop :=
  ∃ fields, Written entryNames text fields ∧ EntryFormFields d fields f

def EntryFormsText (d : Nat) (text : Bytes) (fs : List EntryForm) : Prop :=
  ∃ items, ArrayText text items ∧ List.Forall₂ (EntryFormText d) items fs

structure FormFields (d : Nat) (fields : List (String × Bytes)) (f : Form) : Prop where
  payload : TextField fields "payload" f.payload
  entries : Worth (OptionText (EntryFormsText d)) none fields "signatures" f.entries
  single : EntryFormFields (d + 2) fields f.single

def tokenSlots (d : Nat) : List (String × (Bytes → (Form → Form) → Prop)) := [
  ("payload", SetBy (OptionText StringText) fun payload f => { f with payload }),
  ("signatures", SetBy (OptionText (EntryFormsText d)) fun entries f => { f with entries }),
  ("protected", SetBy (OptionText StringText) fun text f =>
    { f with single := { f.single with protectedText := text } }),
  ("header", SetBy (HeaderText (d + 2)) fun header f =>
    { f with single := { f.single with header } }),
  ("signature", SetBy (OptionText StringText) fun signature f =>
    { f with single := { f.single with signature } })]

theorem nodup_tokenNames : tokenNames.Nodup := by decide

theorem parses_entries (d : Nat) :
    Parses (optional (list (entryRecord.read {})) (d + 2)) (OptionText (EntryFormsText d)) := by
  refine parses_optional (parses_list (parses_entry d)) ?_
  rintro _ fs ⟨items, ⟨inner, rfl, _⟩, _⟩
  exact ⟨rfl, by decide⟩

theorem means_token (d : Nat) : record.Means (d + 2) (Meaning (tokenSlots d)) :=
  means_of_slots (.cons ⟨rfl, parses_member (parses_optional_text _) _ _ _⟩
    (.cons ⟨rfl, parses_member (parses_entries d) _ _ _⟩
      (.cons ⟨rfl, parses_member (parses_optional_text _) _ _ _⟩
        (.cons ⟨rfl, parses_member (Header.parses_read _) _ _ _⟩
          (.cons ⟨rfl, parses_member (parses_optional_text _) _ _ _⟩ .nil)))))
    nodup_tokenNames

section

variable {d : Nat} {fields : List (String × Bytes)} {f : Form}

theorem formFields_of_runs (hruns : Runs (FillStep (Meaning (tokenSlots d))) {} fields f)
    (honce : (fields.map (·.1)).Nodup) : FormFields d fields f where
  payload := worth_of_runs Form.payload hruns honce nodup_tokenNames (.head _) (fun _ _ => rfl)
    (.own (.other (fun _ _ => rfl) (.other (fun _ _ => rfl) (.other (fun _ _ => rfl)
      (.other (fun _ _ => rfl) .nil)))))
  entries := worth_of_runs Form.entries hruns honce nodup_tokenNames (.tail _ (.head _))
    (fun _ _ => rfl) (.other (fun _ _ => rfl) (.own (.other (fun _ _ => rfl)
      (.other (fun _ _ => rfl) (.other (fun _ _ => rfl) .nil)))))
  single := {
    protectedText := worth_of_runs (fun f : Form => f.single.protectedText) hruns honce
      nodup_tokenNames (.tail _ (.tail _ (.head _))) (fun _ _ => rfl) (.other (fun _ _ => rfl)
        (.other (fun _ _ => rfl) (.own (.other (fun _ _ => rfl) (.other (fun _ _ => rfl) .nil)))))
    header := worth_of_runs (fun f : Form => f.single.header) hruns honce nodup_tokenNames
      (.tail _ (.tail _ (.tail _ (.head _)))) (fun _ _ => rfl) (.other (fun _ _ => rfl)
        (.other (fun _ _ => rfl) (.other (fun _ _ => rfl) (.own (.other (fun _ _ => rfl) .nil)))))
    signature := worth_of_runs (fun f : Form => f.single.signature) hruns honce nodup_tokenNames
      (.tail _ (.tail _ (.tail _ (.tail _ (.head _))))) (fun _ _ => rfl) (.other (fun _ _ => rfl)
        (.other (fun _ _ => rfl) (.other (fun _ _ => rfl) (.other (fun _ _ => rfl) (.own .nil))))) }

theorem FormFields.functional {g : Form} (hf : FormFields d fields f)
    (hg : FormFields d fields g) : f = g := by
  obtain ⟨payload, entries, single⟩ := f
  obtain rfl := hf.payload.functional hg.payload
  obtain rfl := Worth.functional (P := OptionText (EntryFormsText d))
    (parses_entries d).functional hf.entries hg.entries
  obtain rfl := hf.single.functional hg.single
  rfl

theorem runs_of_formFields {text : Bytes} (hwritten : Written tokenNames text fields)
    (h : FormFields d fields f) : Runs (FillStep (Meaning (tokenSlots d))) {} fields f := by
  have hmeaning : ∀ slot ∈ tokenSlots d, ∀ text, find? slot.1 fields = some text →
      ∃ f, Meaning (tokenSlots d) slot.1 text f := by
    simp only [tokenSlots, List.forall_mem_cons]
    exact ⟨fun text => meaning_of_worth (.head _) h.payload,
      fun text => meaning_of_worth (.tail _ (.head _)) h.entries,
      fun text => meaning_of_worth (.tail _ (.tail _ (.head _))) h.single.protectedText,
      fun text => meaning_of_worth (.tail _ (.tail _ (.tail _ (.head _)))) h.single.header,
      fun text => meaning_of_worth (.tail _ (.tail _ (.tail _ (.tail _ (.head _)))))
        h.single.signature, by simp⟩
  obtain ⟨g, hg⟩ := exists_runs (tokenSlots d) hwritten nodup_tokenNames hmeaning {}
  have honce := hwritten.nodup nodup_tokenNames
  rw [h.functional (formFields_of_runs hg honce)]
  exact hg

end

theorem parses_token :
    Parses (record.read {} maxDepth) fun text f =>
      ∃ fields, Written tokenNames text fields ∧ FormFields entryLevels fields f := by
  refine (parses_read (means_token entryLevels) nodup_tokenNames {}).congr fun text f => ⟨?_, ?_⟩
  · rintro ⟨fields, hwritten, _, hruns⟩
    exact ⟨fields, hwritten, formFields_of_runs hruns (hwritten.nodup nodup_tokenNames)⟩
  · rintro ⟨fields, hwritten, hfields⟩
    exact ⟨fields, hwritten, complete_of_free (by decide) fields,
      runs_of_formFields hwritten hfields⟩

theorem ofForm_eq_ok_iff {f : Form} {t : Jws} :
    ofForm f = .ok t ↔ f.payload = some (Base64Url.encode t.payload) ∧
      ((∃ entries, f.entries = some entries ∧ t.signatures ≠ [] ∧
          List.Forall₂ (fun e s => entryOf e = .ok s) entries t.signatures) ∨
        (f.entries = none ∧ ∃ s, t.signatures = [s] ∧ entryOf f.single = .ok s)) := by
  constructor
  · intro h
    obtain ⟨payload, hpayload, h⟩ := bind_eq_ok h
    have htext : f.payload = some (Base64Url.encode payload) := by
      cases htext : f.payload with
      | none =>
          rw [htext] at hpayload
          cases hpayload
      | some text =>
          rw [htext] at hpayload
          rw [decodeField_eq_ok_iff.mp hpayload]
    split at h
    · cases h
    next entries hsome hentries =>
      obtain ⟨signatures, hall, h⟩ := bind_eq_ok h
      cases h
      have hforall := mapM_eq_ok hall
      refine ⟨htext, .inl ⟨entries, hentries, ?_, hforall⟩⟩
      rintro rfl
      cases hforall
      exact hsome rfl
    next hentries =>
      obtain ⟨s, hs, h⟩ := bind_eq_ok h
      cases h
      exact ⟨htext, .inr ⟨hentries, s, rfl, hs⟩⟩
  · obtain ⟨payload, signatures⟩ := t
    rintro ⟨hpayload, ⟨entries, hentries, hsome, hall⟩ | ⟨hentries, s, rfl, hs⟩⟩
    · have hread := mapM_eq_ok_iff.mpr hall
      cases entries with
      | nil =>
          cases hall
          exact absurd rfl hsome
      | cons e entries =>
          rw [ofForm, hpayload, hentries, neededField, decodeField_encode]
          simp only [bind, Except.bind] at hread ⊢
          rw [hread]
          rfl
    · rw [ofForm, hpayload, hentries, neededField, decodeField_encode]
      simp only [bind, Except.bind, hs]
      rfl

section

variable {α : Type} {P : Bytes → α → Prop} {fields : List (String × Bytes)} {name : String}

theorem worth_some_iff {x : α} : Worth (OptionText P) none fields name (some x) ↔
    ∃ text, find? name fields = some text ∧ P text x := by
  rw [Worth]
  cases find? name fields with
  | none => simp
  | some text => simp [OptionText]

theorem worth_none_iff : Worth (OptionText P) none fields name none ↔
    find? name fields = none ∨ find? name fields = some nullText := by
  rw [Worth]
  cases find? name fields with
  | none => simp
  | some text => simp [OptionText]

end

theorem entriesText_iff {d : Nat} {text : Bytes} {signatures : List Signature} :
    EntriesText Written d text signatures ↔ ∃ fs, EntryFormsText d text fs ∧
      List.Forall₂ (fun e s => entryOf e = .ok s) fs signatures := by
  constructor
  · rintro ⟨items, htext, hall⟩
    have hforms : ∃ fs, List.Forall₂ (EntryFormText d) items fs ∧
        List.Forall₂ (fun e s => entryOf e = .ok s) fs signatures := by
      clear htext
      induction hall with
      | nil => exact ⟨[], .nil, .nil⟩
      | cons hentry _ ih =>
          obtain ⟨f, hf, hs⟩ := entryText_iff.mp hentry
          obtain ⟨fs, hfs, hrest⟩ := ih
          exact ⟨f :: fs, .cons hf hfs, .cons hs hrest⟩
    obtain ⟨fs, hfs, hread⟩ := hforms
    exact ⟨fs, ⟨items, htext, hfs⟩, hread⟩
  · rintro ⟨fs, ⟨items, htext, hfs⟩, hread⟩
    refine ⟨items, htext, ?_⟩
    clear htext
    induction hfs generalizing signatures with
    | nil =>
        cases hread
        exact .nil
    | cons hf _ ih =>
        cases hread with
        | cons hs hrest => exact .cons (entryText_iff.mpr ⟨_, hf, hs⟩) (ih hrest)

theorem tokenFields_iff {fields : List (String × Bytes)} {t : Jws} :
    (GeneralFields Written fields t ∨ FlatFields fields t) ↔
      ∃ f, FormFields entryLevels fields f ∧ ofForm f = .ok t := by
  constructor
  · rintro (h | h)
    · obtain ⟨text, hfound, hentries⟩ := worth_some_iff.mp h.entries
      obtain ⟨fs, hfs, hread⟩ := entriesText_iff.mp hentries
      obtain ⟨protectedText, hprotected⟩ := h.protectedHeader
      obtain ⟨header, hheader⟩ := h.header
      obtain ⟨signature, hsignature⟩ := h.signature
      exact ⟨⟨some (Base64Url.encode t.payload), some fs, ⟨protectedText, header, signature⟩⟩,
        ⟨h.payload, worth_some_iff.mpr ⟨text, hfound, hfs⟩, ⟨hprotected, hheader, hsignature⟩⟩,
        ofForm_eq_ok_iff.mpr ⟨rfl, .inl ⟨fs, rfl, h.signed, hread⟩⟩⟩
    · obtain ⟨s, hs, hfields⟩ := h.entry
      obtain ⟨f, hf, hread⟩ := entryFields_iff.mp hfields
      exact ⟨⟨some (Base64Url.encode t.payload), none, f⟩,
        ⟨h.payload, worth_none_iff.mpr h.entries, hf⟩,
        ofForm_eq_ok_iff.mpr ⟨rfl, .inr ⟨rfl, s, hs, hread⟩⟩⟩
  · rintro ⟨f, hf, hread⟩
    obtain ⟨hpayload, ⟨entries, hentries, hsome, hall⟩ | ⟨hentries, s, hs, hentry⟩⟩ :=
      ofForm_eq_ok_iff.mp hread
    · have htexts := hf.entries
      rw [hentries] at htexts
      obtain ⟨text, hfound, hforms⟩ := worth_some_iff.mp htexts
      exact .inl ⟨(hpayload ▸ hf.payload :), worth_some_iff.mpr ⟨text, hfound,
        entriesText_iff.mpr ⟨entries, hforms, hall⟩⟩, hsome, ⟨_, hf.single.protectedText⟩,
        ⟨_, hf.single.header⟩, ⟨_, hf.single.signature⟩⟩
    · have htexts := hf.entries
      rw [hentries] at htexts
      exact .inr ⟨(hpayload ▸ hf.payload :), worth_none_iff.mp htexts, s, hs,
        entryFields_iff.mpr ⟨_, hf.single, hentry⟩⟩

theorem ofJson_eq_ok_iff {bytes : Bytes} {t : Jws} :
    ofJson bytes = .ok t ↔ DocumentOf (TokenText Written) bytes t := by
  constructor
  · intro h
    rw [ofJson] at h
    split at h
    next f hdocument =>
      obtain ⟨gap, text, gap', hgap, hgap', rfl, fields, hwritten, hfields⟩ :=
        parses_token.document_eq_ok_iff.mp hdocument
      exact ⟨gap, text, gap', hgap, hgap', rfl, fields, hwritten,
        tokenFields_iff.mpr ⟨f, hfields, h⟩⟩
    · cases h
  · rintro ⟨gap, text, gap', hgap, hgap', rfl, fields, hwritten, hfields⟩
    obtain ⟨f, hf, hread⟩ := tokenFields_iff.mp hfields
    have hdocument := parses_token.document_eq_ok_iff.mpr
      ⟨gap, text, gap', hgap, hgap', rfl, fields, hwritten, hf⟩
    rw [ofJson, hdocument]
    exact hread

theorem encoded_of_protectedText {encoded : String} {p : Protected} (h : ProtectedText encoded p) :
    p.encoded = encoded := by
  rcases h with ⟨rfl, rfl⟩ | ⟨_, hencoded, _⟩
  · rfl
  · exact hencoded

theorem ofCompact_eq_ok_iff {protectedText payload signature : String} {t : Jws} :
    ofCompact protectedText payload signature = .ok t ↔
      ∃ s, t.signatures = [s] ∧ s.header = {} ∧ s.signature ≠ [] ∧
        ProtectedText protectedText s.protectedHeader ∧ payload = Base64Url.encode t.payload ∧
        signature = Base64Url.encode s.signature := by
  constructor
  · intro h
    obtain ⟨s, hs, hheader, hp, hpayload, hsignature⟩ := ofCompact_ok h
    refine ⟨s, hs, hheader, fun hnone => ?_, Protected.decode_eq_ok_iff.mp hp,
      decodeField_eq_ok_iff.mp hpayload, decodeField_eq_ok_iff.mp hsignature⟩
    rw [decodeField_eq_ok_iff.mp hsignature, hnone] at h
    cases h
  · obtain ⟨octets, signatures⟩ := t
    rintro ⟨⟨p, header, bytes⟩, rfl, rfl, hsome, hp, rfl, rfl⟩
    have hempty : ¬ (Base64Url.encode bytes).isEmpty = true := by
      rw [Base64Url.encode_isEmpty, List.isEmpty_iff]
      exact hsome
    rw [ofCompact, if_neg hempty]
    simp only [decodeField_encode, Protected.decode_eq_ok_iff.mpr hp]
    rfl

theorem compactSegments_eq (text : String) :
    compactSegments text = if text.toList.head? = some '\x7b' then [] else segments text := rfl

theorem deserialize_segmented {text : String} (h : Segmented (Text.trim text)) {t : Jws} :
    deserialize text = .ok t ↔ ∃ s, CompactParts (Text.trim text) t s := by
  obtain ⟨hhead, hlength⟩ := h
  obtain ⟨protectedText, payload, signature, hsegments⟩ := List.length_eq_three.mp hlength
  have hcompact : compactSegments (Text.trim text) = [protectedText, payload, signature] := by
    rw [compactSegments_eq, if_neg hhead, hsegments]
  rw [deserialize, hcompact]
  refine ofCompact_eq_ok_iff.trans ⟨?_, ?_⟩
  · rintro ⟨s, hs, hheader, hsome, hp, rfl, rfl⟩
    have hencoded := encoded_of_protectedText hp
    exact ⟨s, by rw [hsegments, hencoded], hencoded ▸ hp, hs, hheader, hsome⟩
  · rintro ⟨s, hpieces, hp, hs, hheader, hsome⟩
    rw [hsegments] at hpieces
    simp only [List.cons.injEq, and_true] at hpieces
    obtain ⟨rfl, hpayload, hsignature⟩ := hpieces
    exact ⟨s, hs, hheader, hsome, hp, hpayload, hsignature⟩

theorem deserialize_unsegmented {text : String} (h : ¬ Segmented (Text.trim text)) :
    deserialize text = ofJson (Bytes.ofText (Text.trim text)) := by
  have hlength : (compactSegments (Text.trim text)).length ≠ 3 := by
    rw [compactSegments_eq]
    split
    · simp
    next hhead => exact fun hlength => h ⟨hhead, hlength⟩
  rw [deserialize]
  split
  next hsegments =>
    rw [hsegments] at hlength
    exact absurd rfl hlength
  · rfl

theorem deserialize_eq_ok_iff (text : String) (t : Jws) :
    deserialize text = .ok t ↔ TextOf Written (Text.trim text) t := by
  rw [TextOf]
  by_cases h : Segmented (Text.trim text)
  · rw [deserialize_segmented h]
    simp only [h, true_and, not_true_eq_false, false_and, or_false]
  · rw [deserialize_unsegmented h, ofJson_eq_ok_iff]
    simp only [h, false_and, not_false_eq_true, true_and, false_or]

instance : DecidablePred Segmented :=
  fun text => inferInstanceAs (Decidable (text.toList.head? ≠ some '\x7b' ∧
    (segments text).length = 3))

theorem not_tokenText_array {bytes : Bytes} (h : bytes.head? = some '['.toUInt8) (t : Jws) :
    ¬ DocumentOf (TokenText Named) bytes t := by
  rintro ⟨gap, token, gap', hgap, -, rfl, fields, ⟨ms, ⟨inner, rfl, -⟩, -⟩, -⟩
  cases gap with
  | nil => exact absurd (Option.some.inj h) (by decide)
  | cons b gap =>
      obtain rfl : b = '['.toUInt8 := Option.some.inj h
      exact absurd (hgap _ List.mem_cons_self) (by decide)

theorem not_deserialize_objects :
    ¬ ∀ text, (∃ t, deserialize text = .ok t) ↔ ∃ t, TextOf Named (Text.trim text) t := by
  intro h
  have hread : ∃ t, deserialize "[\"aGk\",null,\"e30\",\x7b\x7d,\"AQ\"]" = .ok t :=
    exists_of_isOk (by decide +kernel)
  obtain ⟨t, ⟨hsegmented, _⟩ | ⟨_, hdocument⟩⟩ := (h _).mp hread
  · exact absurd hsegmented (by decide +kernel)
  · exact not_tokenText_array (by decide +kernel) t hdocument

end Jws

end JoseTokens
