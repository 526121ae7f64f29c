import JoseTokens.Proofs.Outcome
import JoseTokens.Proofs.Token.Header
import JoseTokens.Proofs.Token.Segments

namespace JoseTokens

section

open Json.Record

variable {σ : Type} {r : Json.Record σ} {d : Nat}

def Protected.text? (p : Protected) : Option String :=
  if p.encoded.isEmpty then none else some p.encoded

theorem Protected.getD_text? (p : Protected) : p.text?.getD "" = p.encoded := by
  rw [text?]
  cases hempty : p.encoded.isEmpty with
  | true => simpa using (String.isEmpty_iff.mp hempty).symm
  | false => rfl

theorem reads_optional_text (s : String) (d : Nat) :
    Json.Reads (Json.optional Json.text d) (Json.bytes (.string s)) (some s) :=
  Json.reads_optional (Json.reads_text s d) (Json.startsOther_string s)

theorem fills_protected {set : Option String → σ → σ} {required : Bool} {s u : σ} (p : Protected)
    (hknown : (r.members.find? fun m => m.name == "protected") =
      some (.of "protected" required (Json.optional Json.text) set))
    (hnone : set none s = s) (hset : set p.text? s = u) : Fills r d s (protectedMember p) u := by
  subst hset
  rw [protectedMember, Protected.text?]
  cases p.encoded.isEmpty with
  | true =>
      simp only [if_true, hnone]
      exact .nil s
  | false =>
      simp only [Bool.false_eq_true, if_false]
      exact fills_of (reads_optional_text p.encoded d) hknown rfl

theorem fills_header {set : Header → σ → σ} {required : Bool} {s u : σ} (name : String)
    {h : Header} (hportable : h.Portable d)
    (hknown : (r.members.find? fun m => m.name == name) = some (.of name required Header.read set))
    (hnone : set {} s = s) (hset : set h s = u) : Fills r d s (headerMember name h) u := by
  subst hset
  rw [headerMember]
  cases hempty : h.isEmpty with
  | true =>
      obtain rfl := Header.eq_empty hempty
      simp only [if_true, hnone]
      exact .nil s
  | false =>
      simp only [Bool.false_eq_true, if_false]
      exact fills_of (Header.reads_header hportable) hknown rfl

theorem fills_octets {set : Option String → σ → σ} {required : Bool} {s u : σ} (name : String)
    (bytes : Bytes)
    (hknown : (r.members.find? fun m => m.name == name) =
      some (.of name required (Json.optional Json.text) set))
    (hset : set (some (Base64Url.encode bytes)) s = u) : Fills r d s [octetsMember name bytes] u :=
  fills_of (reads_optional_text _ d) hknown hset

end

theorem names_protectedMember (p : Protected) :
    List.Sublist ((protectedMember p).map (·.1)) ["protected"] := by
  rw [protectedMember]
  split
  · exact List.nil_sublist _
  · exact List.Sublist.refl _

theorem names_headerMember (name : String) (h : Header) :
    List.Sublist ((headerMember name h).map (·.1)) [name] := by
  rw [headerMember]
  split
  · exact List.nil_sublist _
  · exact List.Sublist.refl _

theorem depth_of_headerMember (name : String) {h : Header} (d : Nat)
    (hd : ∀ m ∈ headerMember name h, Json.depth m.2 ≤ d + 1) : Json.depth h.toJson ≤ d + 1 := by
  cases hempty : h.isEmpty with
  | true =>
      obtain rfl := Header.eq_empty hempty
      exact Nat.succ_le_succ (Nat.zero_le d)
  | false =>
      refine hd (name, h.toJson) ?_
      simp [headerMember, hempty]

def Protected.Kept (p : Protected) : Prop :=
  decode p.encoded = .ok p

theorem Protected.encoded_of_decode {text : String} {p : Protected} (h : decode text = .ok p) :
    p.encoded = text := by
  rw [decode] at h
  split at h
  next hempty =>
    cases h
    exact (String.isEmpty_iff.mp hempty).symm
  · obtain ⟨bytes, _, h⟩ := bind_eq_ok h
    split at h <;> cases h
    rfl

theorem Protected.kept_of_decode {text : String} {p : Protected} (h : decode text = .ok p) :
    p.Kept := by
  rw [Kept, encoded_of_decode h]
  exact h

def Protected.Genuine (p : Protected) : Prop :=
  p.Kept ∨ ∃ h : Header, h.Distinct ∧ p = ofHeader h

theorem Protected.Genuine.kept {p : Protected} (h : p.Genuine)
    (hnumbers : p.header.WholeNumbers) (hdepth : Json.depth p.header.toJson ≤ Json.maxDepth) :
    p.Kept := by
  rcases h with hkept | ⟨header, hdistinct, rfl⟩
  · exact hkept
  · exact decode_ofHeader ((Header.portable_iff _ header).mpr ⟨hdistinct, hnumbers, hdepth⟩)

namespace Jws

def entryForm (s : Signature) : EntryForm where
  protectedText := s.protectedHeader.text?
  header := s.header
  signature := some (Base64Url.encode s.signature)

theorem fills_entry {d : Nat} {s : Signature} (h : s.header.Portable d) :
    entryRecord.Fills d {} (entryMembers s) (entryForm s) := by
  have hprotected : entryRecord.Fills d {} (protectedMember s.protectedHeader)
      { protectedText := s.protectedHeader.text? } :=
    fills_protected s.protectedHeader rfl rfl rfl
  have hheader : entryRecord.Fills d { protectedText := s.protectedHeader.text? }
      (headerMember "header" s.header)
      { protectedText := s.protectedHeader.text?, header := s.header } :=
    fills_header "header" h rfl rfl rfl
  have hsignature : entryRecord.Fills d
      { protectedText := s.protectedHeader.text?, header := s.header }
      [octetsMember "signature" s.signature] (entryForm s) :=
    fills_octets "signature" s.signature rfl rfl
  exact (hprotected.append hheader).append hsignature

theorem nodup_entryMembers (s : Signature) : ((entryMembers s).map (·.1)).Nodup := by
  have hnames : List.Sublist ((entryMembers s).map (·.1)) ["protected", "header", "signature"] := by
    rw [entryMembers, List.map_append, List.map_append]
    exact ((names_protectedMember _).append (names_headerMember "header" _)).append
      (List.Sublist.refl ["signature"])
  exact hnames.nodup (by decide)

theorem entryOf_entryForm {s : Signature} (h : s.protectedHeader.Kept) :
    entryOf (entryForm s) = .ok s := by
  simp only [entryOf, entryForm, Protected.getD_text?]
  rw [h, decodeField_encode]
  rfl

def generalForm (t : Jws) : Form where
  payload := some (Base64Url.encode t.payload)
  entries := some (t.signatures.map entryForm)

theorem fills_general {d : Nat} {t : Jws} (h : ∀ s ∈ t.signatures, s.header.Portable d) :
    record.Fills (d + 2) {} [octetsMember "payload" t.payload,
      ("signatures", .array (t.signatures.map fun s => .object (entryMembers s)))]
      (generalForm t) := by
  have hpayload : record.Fills (d + 2) {} [octetsMember "payload" t.payload]
      { payload := some (Base64Url.encode t.payload) } :=
    fills_octets "payload" t.payload rfl rfl
  have heach : Json.ReadsEach (entryRecord.read {} (d + 1))
      ((t.signatures.map fun s => .object (entryMembers s)).map Json.bytes)
      (t.signatures.map entryForm) := by
    rw [List.map_map, Json.ReadsEach, List.forall₂_map_left_iff, List.forall₂_map_right_iff,
      List.forall₂_same]
    intro s hs
    exact ⟨Json.starts_object _, Json.Record.reads_object (fills_entry (h s hs))
      (nodup_entryMembers s) (by decide)⟩
  have hentries := Json.reads_optional (Json.reads_list heach) (Json.startsOther_array _)
  exact hpayload.append (Json.Record.fills_of hentries rfl rfl)

theorem ofForm_generalForm {t : Jws} (hsome : t.signatures ≠ [])
    (h : ∀ s ∈ t.signatures, s.protectedHeader.Kept) : ofForm (generalForm t) = .ok t := by
  obtain ⟨payload, signatures⟩ := t
  have hentries := mapM_map_ok signatures fun s hs => entryOf_entryForm (h s hs)
  cases signatures with
  | nil => exact absurd rfl hsome
  | cons s signatures =>
      simp only [ofForm, generalForm, neededField, decodeField_encode, List.map_cons]
      rw [List.map_cons] at hentries
      rw [hentries]
      rfl

def entryLevels : Nat :=
  Json.maxDepth - 3

theorem deserialize_object {ms : List (String × Json)} {f : Form}
    (hread : Json.document (record.read {}) (Json.bytes (.object ms)) = .ok f) :
    deserialize (Json.compact (.object ms)) = ofForm f := by
  rw [deserialize, Json.trim_compact_object, compactSegments_object]
  simp only [ofJson, Json.ofText_compact, hread]

theorem deserialize_general {t : Jws} (hsome : t.signatures ≠ [])
    (hkept : ∀ s ∈ t.signatures, s.protectedHeader.Kept)
    (hportable : ∀ s ∈ t.signatures, s.header.Portable entryLevels) :
    deserialize t.generalJson.compact = .ok t := by
  have hread : Json.document (record.read {}) t.generalJson.bytes = .ok (generalForm t) :=
    Json.document_of_reads (Json.Record.reads_object (fills_general hportable)
      (by simp [octetsMember]) (by decide))
  rw [generalJson, deserialize_object hread]
  exact ofForm_generalForm hsome hkept

theorem serialize_general {t : Jws} (hsome : t.signatures ≠ []) :
    t.serialize .general = .ok t.generalJson.compact := by
  obtain ⟨payload, signatures⟩ := t
  cases signatures with
  | nil => exact absurd rfl hsome
  | cons s signatures => rfl

end Jws

end JoseTokens
