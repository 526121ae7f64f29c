import JoseTokens.Proofs.Token.JwsText
import JoseTokens.Token.JweText

namespace JoseTokens.Jwe

def Complete (t : Jwe) : Prop :=
  t.missing? = none

theorem complete_iff (t : Jwe) :
    t.Complete ↔ t.ciphertext ≠ [] ∧ t.iv ≠ [] ∧ t.recipients ≠ [] ∧
      ∀ r ∈ t.recipients, r.encryptedKey ≠ [] := by
  simp only [Complete, missing?, List.isEmpty_iff]
  by_cases hciphertext : t.ciphertext = []
  · simp [hciphertext]
  by_cases hiv : t.iv = []
  · simp [hciphertext, hiv]
  by_cases hrecipients : t.recipients = []
  · simp [hciphertext, hiv, hrecipients]
  simp [hciphertext, hiv, hrecipients, List.findIdx?_eq_none_iff]

theorem check_complete {t : Jwe} (h : t.Complete) : t.check = .ok () := by
  rw [Complete] at h
  rw [check, h]

def Written (s : String) : Prop :=
  ∀ c ∈ s.toList, c ∈ Base64Url.symbolChars

theorem written_encode (bytes : Bytes) : Written (Base64Url.encode bytes) :=
  fun _ hc => Base64Url.mem_symbolChars_of_mem_encode hc

theorem written_of_decodeField {field text : String} {bytes : Bytes}
    (h : decodeField field text = .ok bytes) : Written text := by
  rw [← encode_of_decodeField h]
  exact written_encode bytes

theorem written_of_kept {p : Protected} (h : p.Kept) : Written p.encoded := by
  rw [Protected.Kept, Protected.decode] at h
  split at h
  next hempty =>
    rw [String.isEmpty_iff.mp hempty]
    exact fun c hc => absurd hc List.not_mem_nil
  · obtain ⟨bytes, hbytes, _⟩ := bind_eq_ok h
    exact written_of_decodeField hbytes

theorem symbolChars_spec :
    ∀ c ∈ '.' :: Base64Url.symbolChars, Text.isBlank c = false ∧ c ≠ '\x7b' := by
  have hall : ('.' :: Base64Url.symbolChars).all
      (fun c => !Text.isBlank c && decide (c ≠ '\x7b')) = true := by
    decide
  intro c hc
  have hboth := List.all_eq_true.mp hall c hc
  simpa using hboth

theorem not_mem_point {s : String} (h : Written s) : '.' ∉ s.toList := by
  intro hpoint
  exact absurd (h _ hpoint) (by decide)

section

variable {parts : List String} (h : ∀ s ∈ parts, Written s)

include h

theorem bare_of_written : ∀ s ∈ parts, Bare s := by
  intro s hs c hc
  refine ⟨?_, (symbolChars_spec c (List.mem_cons_of_mem _ (h s hs c hc))).1⟩
  rintro rfl
  exact not_mem_point (h s hs) hc

theorem trim_joined : Text.trim (String.intercalate "." parts) = String.intercalate "." parts :=
  trim_bare (bare_of_written h)

theorem compactSegments_joined (hsome : parts ≠ []) :
    compactSegments (String.intercalate "." parts) = parts := by
  refine compactSegments_bare (bare_of_written h) hsome fun hbrace => ?_
  rcases mem_joined (List.mem_of_head? hbrace) with heq | ⟨part, hpart, hc⟩
  · cases heq
  · exact (symbolChars_spec _ (List.mem_cons_of_mem _ (h part hpart _ hc))).2 rfl

end

def compactParts (t : Jwe) (r : Recipient) : List String :=
  [t.protectedHeader.encoded, Base64Url.encode r.encryptedKey, Base64Url.encode t.iv,
    Base64Url.encode t.ciphertext, Base64Url.encode t.tag]

theorem written_compactParts {t : Jwe} (r : Recipient) (h : t.protectedHeader.Kept) :
    ∀ s ∈ compactParts t r, Written s := by
  intro s hs
  simp only [compactParts, List.mem_cons, List.not_mem_nil, or_false] at hs
  rcases hs with rfl | rfl | rfl | rfl | rfl
  · exact written_of_kept h
  · exact written_encode _
  · exact written_encode _
  · exact written_encode _
  · exact written_encode _

theorem compactText_eq (t : Jwe) (r : Recipient) :
    compactText t r = String.intercalate "." (compactParts t r) := rfl

theorem deserialize_compact {t : Jwe} {r : Recipient} (hcomplete : t.Complete)
    (hrecipients : t.recipients = [r]) (hfits : t.fitsCompact r)
    (hkept : t.protectedHeader.Kept) :
    deserialize (compactText t r) = .ok t := by
  have hparts := written_compactParts r hkept
  have hparse : parse (compactText t r) = .ok t := by
    obtain ⟨p, ⟨unprotected⟩, iv, aad, ciphertext, tag, recipients⟩ := t
    obtain ⟨⟨header⟩, encryptedKey⟩ := r
    simp only [fitsCompact, Header.isEmpty, Bool.and_eq_true, List.isEmpty_iff] at hfits
    obtain ⟨⟨rfl, rfl⟩, rfl⟩ := hfits
    subst hrecipients
    have hdecode : Protected.decode p.encoded = .ok p := hkept
    rw [parse, compactText_eq, compactSegments_joined hparts (List.cons_ne_nil _ _)]
    simp only [compactParts, ofCompact, decodeField_encode, hdecode]
    rfl
  rw [deserialize, compactText_eq, trim_joined hparts, ← compactText_eq, hparse]
  simp only [bind, Except.bind, check_complete hcomplete]
  rfl

theorem serialize_compact {t : Jwe} {r : Recipient} (hcomplete : t.Complete)
    (hrecipients : t.recipients = [r]) (hfits : t.fitsCompact r) :
    t.serialize .compact = .ok (compactText t r) := by
  unfold serialize
  simp only [check_complete hcomplete, hrecipients, hfits, if_true]
  rfl

def recipientForm (r : Recipient) : RecipientForm where
  header := r.header
  encryptedKey := some (Base64Url.encode r.encryptedKey)

theorem fills_recipient {d : Nat} {r : Recipient} (h : r.header.Portable d) :
    recipientRecord.Fills d {} (recipientMembers r) (recipientForm r) := by
  have hheader : recipientRecord.Fills d {} (headerMember "header" r.header)
      { header := r.header } :=
    fills_header "header" h rfl rfl rfl
  have hkey : recipientRecord.Fills d { header := r.header }
      [octetsMember "encrypted_key" r.encryptedKey] (recipientForm r) :=
    fills_octets "encrypted_key" r.encryptedKey rfl rfl
  exact hheader.append hkey

theorem names_recipientMembers (r : Recipient) :
    List.Sublist ((recipientMembers r).map (·.1)) ["header", "encrypted_key"] := by
  rw [recipientMembers, List.map_append]
  exact (names_headerMember "header" _).append (List.Sublist.refl ["encrypted_key"])

theorem recipientOf_recipientForm (r : Recipient) : recipientOf (recipientForm r) = .ok r := by
  simp only [recipientOf, recipientForm, neededField, decodeField_encode]
  rfl

def generalForm (t : Jwe) : Form where
  protectedText := t.protectedHeader.text?
  unprotected := t.unprotected
  recipients := some (t.recipients.map recipientForm)
  aad := if t.aad.isEmpty then none else some (Base64Url.encode t.aad)
  iv := some (Base64Url.encode t.iv)
  ciphertext := some (Base64Url.encode t.ciphertext)
  tag := some (Base64Url.encode t.tag)

def recipientsMember (t : Jwe) : String × Json :=
  ("recipients", .array (t.recipients.map fun r => .object (recipientMembers r)))

theorem fills_leading {d : Nat} {t : Jwe} (h : t.unprotected.Portable d) :
    record.Fills d {} t.leadingMembers
      { protectedText := t.protectedHeader.text?, unprotected := t.unprotected } := by
  have hprotected : record.Fills d {} (protectedMember t.protectedHeader)
      { protectedText := t.protectedHeader.text? } :=
    fills_protected t.protectedHeader rfl rfl rfl
  exact hprotected.append (fills_header "unprotected" h rfl rfl rfl)

theorem fills_recipients {d : Nat} {t : Jwe} (f : Form)
    (h : ∀ r ∈ t.recipients, r.header.Portable d) :
    record.Fills (d + 2) f [recipientsMember t]
      { f with recipients := some (t.recipients.map recipientForm) } := by
  have heach : Json.ReadsEach (recipientRecord.read {} (d + 1))
      ((t.recipients.map fun r => .object (recipientMembers r)).map Json.bytes)
      (t.recipients.map recipientForm) := by
    rw [List.map_map, Json.ReadsEach, List.forall₂_map_left_iff, List.forall₂_map_right_iff,
      List.forall₂_same]
    intro r hr
    exact ⟨Json.starts_object _, Json.Record.reads_object (fills_recipient (h r hr))
      ((names_recipientMembers r).nodup (by decide)) (by decide)⟩
  have hrecipients := Json.reads_optional (Json.reads_list heach) (Json.startsOther_array _)
  exact Json.Record.fills_of hrecipients rfl rfl

theorem fills_aad {d : Nat} (t : Jwe) (f : Form) (hnone : f.aad = none) :
    record.Fills d f (if t.aad.isEmpty then [] else [octetsMember "aad" t.aad])
      { f with aad := if t.aad.isEmpty then none else some (Base64Url.encode t.aad) } := by
  cases t.aad.isEmpty with
  | true =>
      simp only [if_true, ← hnone]
      exact .nil f
  | false =>
      simp only [Bool.false_eq_true, if_false]
      exact fills_octets "aad" t.aad rfl rfl

theorem fills_content {d : Nat} (t : Jwe) (f : Form) (hnone : f.aad = none) :
    record.Fills d f t.contentMembers
      { f with
        aad := if t.aad.isEmpty then none else some (Base64Url.encode t.aad)
        iv := some (Base64Url.encode t.iv)
        ciphertext := some (Base64Url.encode t.ciphertext)
        tag := some (Base64Url.encode t.tag) } := by
  have hoctets (f : Form) : record.Fills d f
      ([octetsMember "iv" t.iv] ++
        ([octetsMember "ciphertext" t.ciphertext] ++ [octetsMember "tag" t.tag]))
      { f with
        iv := some (Base64Url.encode t.iv)
        ciphertext := some (Base64Url.encode t.ciphertext)
        tag := some (Base64Url.encode t.tag) } :=
    (fills_octets "iv" t.iv rfl rfl).append
      ((fills_octets "ciphertext" t.ciphertext rfl rfl).append (fills_octets "tag" t.tag rfl rfl))
  exact (fills_aad t f hnone).append (hoctets _)

theorem names_leadingMembers (t : Jwe) :
    List.Sublist (t.leadingMembers.map (·.1)) ["protected", "unprotected"] := by
  rw [leadingMembers, List.map_append]
  exact (names_protectedMember _).append (names_headerMember "unprotected" _)

theorem names_contentMembers (t : Jwe) :
    List.Sublist (t.contentMembers.map (·.1)) ["aad", "iv", "ciphertext", "tag"] := by
  have haad : List.Sublist
      ((if t.aad.isEmpty then [] else [octetsMember "aad" t.aad]).map (·.1)) ["aad"] := by
    split
    · exact List.nil_sublist _
    · exact List.Sublist.refl _
  rw [contentMembers, List.map_append]
  exact haad.append (List.Sublist.refl ["iv", "ciphertext", "tag"])

theorem nodup_generalMembers (t : Jwe) :
    ((t.leadingMembers ++ [recipientsMember t] ++ t.contentMembers).map (·.1)).Nodup := by
  have hnames : List.Sublist
      ((t.leadingMembers ++ [recipientsMember t] ++ t.contentMembers).map (·.1))
      ["protected", "unprotected", "recipients", "aad", "iv", "ciphertext", "tag"] := by
    rw [List.map_append, List.map_append]
    exact ((names_leadingMembers t).append (List.Sublist.refl ["recipients"])).append
      (names_contentMembers t)
  exact hnames.nodup (by decide)

theorem ofForm_filled {t : Jwe} (hkept : t.protectedHeader.Kept) (single : RecipientForm)
    (recipients : Option (List RecipientForm))
    (hrecipients : recipientsOf { generalForm t with single, recipients } = .ok t.recipients) :
    ofForm { generalForm t with single, recipients } = .ok t := by
  have hdecode : Protected.decode t.protectedHeader.encoded = .ok t.protectedHeader := hkept
  have haad : optionalField "aad"
      (if t.aad.isEmpty then none else some (Base64Url.encode t.aad)) = .ok t.aad := by
    cases haad : t.aad with
    | nil => rfl
    | cons b aad => exact decodeField_encode _ _
  rw [ofForm, hrecipients]
  simp only [generalForm, neededField, decodeField_encode, Protected.getD_text?, hdecode, haad]
  rfl

theorem ofForm_generalForm {t : Jwe} (hcomplete : t.Complete) (hkept : t.protectedHeader.Kept) :
    ofForm (generalForm t) = .ok t := by
  refine ofForm_filled hkept {} _ ?_
  have heach := mapM_map_ok t.recipients fun r _ => recipientOf_recipientForm r
  cases hlist : t.recipients with
  | nil => exact absurd hlist ((complete_iff t).mp hcomplete).2.2.1
  | cons r recipients =>
      rw [hlist] at heach
      simpa only [recipientsOf, generalForm, hlist, List.map_cons] using heach

theorem deserialize_object {ms : List (String × Json)} {f : Form} {t : Jwe}
    (hread : Json.document (record.read {}) (Json.bytes (.object ms)) = .ok f)
    (hform : ofForm f = .ok t) (hcomplete : t.Complete) :
    deserialize (Json.compact (.object ms)) = .ok t := by
  have hparse : parse (Json.compact (.object ms)) = .ok t := by
    rw [parse, compactSegments_object]
    simp only [ofJson, Json.ofText_compact, hread]
    exact hform
  rw [deserialize, Json.trim_compact_object, hparse]
  simp only [bind, Except.bind, check_complete hcomplete]
  rfl

def unprotectedLevels : Nat :=
  Json.maxDepth - 1

def recipientLevels : Nat :=
  Json.maxDepth - 3

theorem deserialize_general {t : Jwe} (hcomplete : t.Complete) (hkept : t.protectedHeader.Kept)
    (hunprotected : t.unprotected.Portable unprotectedLevels)
    (hrecipients : ∀ r ∈ t.recipients, r.header.Portable recipientLevels) :
    deserialize t.generalJson.compact = .ok t := by
  have hfills : record.Fills unprotectedLevels {}
      (t.leadingMembers ++ [recipientsMember t] ++ t.contentMembers) (generalForm t) :=
    ((fills_leading hunprotected).append (fills_recipients _ hrecipients)).append
      (fills_content t _ rfl)
  have hread : Json.document (record.read {}) t.generalJson.bytes = .ok (generalForm t) :=
    Json.document_of_reads (Json.Record.reads_object hfills (nodup_generalMembers t) (by decide))
  exact deserialize_object hread (ofForm_generalForm hcomplete hkept) hcomplete

theorem serialize_general {t : Jwe} (hcomplete : t.Complete) :
    t.serialize .general = .ok t.generalJson.compact := by
  unfold serialize
  simp only [check_complete hcomplete]
  rfl

end JoseTokens.Jwe
