import JoseTokens.Proofs.Engine.Software
import JoseTokens.Proofs.Token.JweText

namespace JoseTokens

structure Signature.Genuine (s : Signature) : Prop where
  header : s.header.Distinct
  protectedHeader : s.protectedHeader.Genuine

namespace Jws

def compactParts (payload : Bytes) (s : Signature) : List String :=
  [s.protectedHeader.encoded, Base64Url.encode payload, Base64Url.encode s.signature]

theorem compactText_eq (payload : Bytes) (s : Signature) :
    compactText payload s = String.intercalate "." (compactParts payload s) := by
  rw [← String.toList_inj, toList_joined]
  simp [compactText, compactParts]

theorem written_parts (payload : Bytes) {s : Signature} (h : s.protectedHeader.Kept) :
    ∀ part ∈ compactParts payload s, Jwe.Written part := by
  intro part hpart
  simp only [compactParts, List.mem_cons, List.not_mem_nil, or_false] at hpart
  rcases hpart with rfl | rfl | rfl
  · exact Jwe.written_of_kept h
  · exact Jwe.written_encode _
  · exact Jwe.written_encode _

theorem deserialize_compact (payload : Bytes) {s : Signature} (hkept : s.protectedHeader.Kept)
    (hheader : s.header = {}) (hsignature : s.signature ≠ []) :
    deserialize (compactText payload s) = .ok { payload, signatures := [s] } := by
  obtain ⟨p, header, signature⟩ := s
  obtain rfl : header = {} := hheader
  have hparts := written_parts payload hkept
  have hdecode : Protected.decode p.encoded = .ok p := hkept
  have hwritten : (Base64Url.encode signature).isEmpty = false := by
    rw [Base64Url.encode_isEmpty]
    simpa using hsignature
  rw [deserialize, compactText_eq, Jwe.trim_joined hparts,
    Jwe.compactSegments_joined hparts (List.cons_ne_nil _ _)]
  simp only [compactParts, ofCompact, hwritten, Bool.false_eq_true, if_false, decodeField_encode,
    hdecode]
  rfl

def flatForm (payload : Bytes) (s : Signature) : Form where
  payload := some (Base64Url.encode payload)
  single := entryForm s

theorem fills_flat {d : Nat} (payload : Bytes) {s : Signature} (h : s.header.Portable d) :
    record.Fills d {} (octetsMember "payload" payload :: entryMembers s) (flatForm payload s) := by
  have hpayload : record.Fills d {} [octetsMember "payload" payload]
      { payload := some (Base64Url.encode payload) } :=
    fills_octets "payload" payload rfl rfl
  have hprotected : record.Fills d { payload := some (Base64Url.encode payload) }
      (protectedMember s.protectedHeader)
      { payload := some (Base64Url.encode payload)
        single := { protectedText := s.protectedHeader.text? } } :=
    fills_protected s.protectedHeader rfl rfl rfl
  have hheader : record.Fills d
      { payload := some (Base64Url.encode payload)
        single := { protectedText := s.protectedHeader.text? } }
      (headerMember "header" s.header)
      { payload := some (Base64Url.encode payload)
        single := { protectedText := s.protectedHeader.text?, header := s.header } } :=
    fills_header "header" h rfl rfl rfl
  exact hpayload.append ((hprotected.append hheader).append
    (fills_octets "signature" s.signature rfl rfl))

theorem nodup_flatMembers (payload : Bytes) (s : Signature) :
    ((octetsMember "payload" payload :: entryMembers s).map (·.1)).Nodup := by
  have hnames : List.Sublist ((octetsMember "payload" payload :: entryMembers s).map (·.1))
      ["payload", "protected", "header", "signature"] := by
    rw [entryMembers, List.map_cons, List.map_append, List.map_append]
    exact (((names_protectedMember _).append (names_headerMember "header" _)).append
      (List.Sublist.refl ["signature"])).cons_cons "payload"
  exact hnames.nodup (by decide)

theorem ofForm_flatForm (payload : Bytes) {s : Signature} (h : s.protectedHeader.Kept) :
    ofForm (flatForm payload s) = .ok { payload, signatures := [s] } := by
  simp only [ofForm, flatForm, neededField, decodeField_encode]
  rw [entryOf_entryForm h]
  rfl

def flatLevels : Nat :=
  Json.maxDepth - 1

theorem deserialize_flat (payload : Bytes) {s : Signature} (hkept : s.protectedHeader.Kept)
    (hportable : s.header.Portable flatLevels) :
    deserialize (flatJson payload s).compact = .ok { payload, signatures := [s] } := by
  have hread : Json.document (record.read {}) (flatJson payload s).bytes =
      .ok (flatForm payload s) :=
    Json.document_of_reads (Json.Record.reads_object (fills_flat payload hportable)
      (nodup_flatMembers payload s) (by decide))
  rw [flatJson, deserialize_object hread]
  exact ofForm_flatForm payload hkept

theorem serialize_ok_iff (t : Jws) (format : Format) :
    (∃ text, t.serialize format = .ok text) ↔
      t.signatures ≠ [] ∧ (format = .general ∨ t.signatures.length = 1) ∧
        (format ≠ .compact ∨ ∀ s ∈ t.signatures, s.header = {}) := by
  obtain ⟨payload, signatures⟩ := t
  match signatures, format with
  | [], format => simp [serialize]
  | s :: others, .general => simp [serialize]
  | [s], .flat => simp [serialize]
  | [s], .compact =>
      cases hempty : s.header.isEmpty with
      | true =>
          have heq := Header.eq_empty hempty
          simp [serialize, heq, Header.isEmpty]
      | false =>
          have hne : s.header ≠ {} := by
            intro heq
            rw [heq] at hempty
            cases hempty
          simp [serialize, hempty, hne]
  | s :: other :: others, .flat => simp [serialize]
  | s :: other :: others, .compact => simp [serialize]

theorem serialize_flat {t : Jws} {s : Signature} (hs : t.signatures = [s]) :
    t.serialize .flat = .ok (flatJson t.payload s).compact := by
  simp only [serialize, hs]

theorem serialize_compact {t : Jws} {s : Signature} (hs : t.signatures = [s])
    (hheader : s.header = {}) : t.serialize .compact = .ok (compactText t.payload s) := by
  simp only [serialize, hs, hheader]
  rfl

/-- Tokens as they come about: new ones, ones that have been read, and both signed further, with
whatever adapters and keys. Headers of signers hold each name once. -/
inductive Obtained : Jws → Prop
  | new (payload : Bytes) : Obtained { payload }
  | read {text : String} {t : Jws} : deserialize text = .ok t → Obtained t
  | signed {t u : Jws} {e : Engine (Except Error)} {reference : Reference} {format : Format}
      {options : SignOptions} :
      Obtained t → options.protectedHeader.Distinct → options.header.Distinct →
      sign e t reference format options = .ok u → Obtained u

theorem yields_entryRecord (d : Nat) :
    Json.Yields (entryRecord.read {} d) fun f => f.header.Distinct := by
  refine Json.Record.yields_read (P := fun f : EntryForm => f.header.Distinct) ?_ Header.distinct_empty d
  simp only [entryRecord, List.forall_mem_cons, List.not_mem_nil, false_implies, implies_true,
    and_true]
  refine ⟨Json.Member.keeps_any ?_ _ _, Json.Member.keeps_of Header.yields_read ?_ _ _,
    Json.Member.keeps_any ?_ _ _⟩
  · exact fun _ _ hf => hf
  · exact fun _ _ hheader _ => hheader
  · exact fun _ _ hf => hf

def Form.Distinct (f : Form) : Prop :=
  f.single.header.Distinct ∧ ∀ entries ∈ f.entries, ∀ e ∈ entries, e.header.Distinct

theorem yields_record (d : Nat) : Json.Yields (record.read {} d) Form.Distinct := by
  refine Json.Record.yields_read ?_ ⟨Header.distinct_empty, by simp⟩ d
  simp only [record, List.forall_mem_cons, List.not_mem_nil, false_implies, implies_true,
    and_true]
  have hentries (d : Nat) := Json.yields_optional (Json.yields_list yields_entryRecord d)
  refine ⟨Json.Member.keeps_any ?_ _ _, Json.Member.keeps_of hentries ?_ _ _,
    Json.Member.keeps_any ?_ _ _, Json.Member.keeps_of Header.yields_read ?_ _ _,
    Json.Member.keeps_any ?_ _ _⟩
  · exact fun _ _ hf => hf
  · exact fun _ _ hentries hf => ⟨hf.1, hentries⟩
  · exact fun _ _ hf => hf
  · exact fun _ _ hheader hf => ⟨hheader, hf.2⟩
  · exact fun _ _ hf => hf

theorem genuine_of_entryOf {f : EntryForm} {s : Signature} (h : entryOf f = .ok s)
    (hf : f.header.Distinct) : s.Genuine := by
  rw [entryOf] at h
  split at h
  · cases h
  · obtain ⟨p, hp, h⟩ := bind_eq_ok h
    obtain ⟨signature, _, h⟩ := bind_eq_ok h
    cases h
    exact ⟨hf, .inl (Protected.kept_of_decode hp)⟩

theorem genuine_of_ofForm {f : Form} {t : Jws} (h : ofForm f = .ok t) (hf : f.Distinct) :
    ∀ s ∈ t.signatures, s.Genuine := by
  obtain ⟨payload, _, h⟩ := bind_eq_ok h
  split at h
  · cases h
  next entries _ hentries =>
    obtain ⟨signatures, hsignatures, h⟩ := bind_eq_ok h
    cases h
    intro s hs
    obtain ⟨e, he, hentry⟩ := forall₂_mem_right (mapM_eq_ok hsignatures) hs
    exact genuine_of_entryOf hentry (hf.2 entries hentries e he)
  · obtain ⟨s, hs, h⟩ := bind_eq_ok h
    cases h
    rw [List.forall_mem_singleton]
    exact genuine_of_entryOf hs hf.1

theorem ofCompact_ok {protectedText payload signature : String} {t : Jws}
    (h : ofCompact protectedText payload signature = .ok t) :
    ∃ s, t.signatures = [s] ∧ s.header = {} ∧
      Protected.decode protectedText = .ok s.protectedHeader ∧
      decodeField "payload" payload = .ok t.payload ∧
      decodeField "signature" signature = .ok s.signature := by
  rw [ofCompact] at h
  split at h
  · cases h
  · obtain ⟨_, hpayload, h⟩ := bind_eq_ok h
    obtain ⟨_, hp, h⟩ := bind_eq_ok h
    obtain ⟨_, hsignature, h⟩ := bind_eq_ok h
    cases h
    exact ⟨_, rfl, rfl, hp, hpayload, hsignature⟩

theorem genuine_of_ofCompact {protectedText payload signature : String} {t : Jws}
    (h : ofCompact protectedText payload signature = .ok t) : ∀ s ∈ t.signatures, s.Genuine := by
  obtain ⟨s, hs, hheader, hp, _⟩ := ofCompact_ok h
  rw [hs, List.forall_mem_singleton]
  refine ⟨?_, .inl (Protected.kept_of_decode hp)⟩
  rw [hheader]
  exact Header.distinct_empty

theorem genuine_of_deserialize {text : String} {t : Jws} (h : deserialize text = .ok t) :
    ∀ s ∈ t.signatures, s.Genuine := by
  rw [deserialize] at h
  split at h
  · exact genuine_of_ofCompact h
  · rw [ofJson] at h
    split at h
    next f hf => exact genuine_of_ofForm h (Json.yields_document (yields_record _) hf)
    · cases h

theorem sign_ok {e : Engine (Except Error)} {t u : Jws} {reference : Reference}
    {format : Format} {options : SignOptions} (h : sign e t reference format options = .ok u) :
    ∃ key alg signature, e.store.latest reference = .ok key ∧ key.alg? = some alg ∧
      u = { t with signatures := t.signatures ++ [{
        protectedHeader := .ofHeader (signerHeader alg key.kid? options.protectedHeader)
        header := options.header
        signature }] } := by
  rw [sign] at h
  cases hfault : t.signFault? format options with
  | some fault =>
      rw [hfault] at h
      cases h
  | none =>
      rw [hfault] at h
      obtain ⟨key, hkey, h⟩ := bind_eq_ok h
      rw [liftResult_except] at hkey
      cases halg : key.alg? with
      | none =>
          rw [halg] at h
          cases h
      | some alg =>
          rw [halg] at h
          obtain ⟨a, _, h⟩ := bind_eq_ok h
          obtain ⟨signature, _, h⟩ := bind_eq_ok h
          cases h
          exact ⟨key, alg, signature, hkey, halg, rfl⟩

theorem genuine_of_sign {e : Engine (Except Error)} {t u : Jws} {reference : Reference}
    {format : Format} {options : SignOptions} (h : sign e t reference format options = .ok u)
    (hprotected : options.protectedHeader.Distinct) (hheader : options.header.Distinct)
    (ht : ∀ s ∈ t.signatures, s.Genuine) : ∀ s ∈ u.signatures, s.Genuine := by
  obtain ⟨key, alg, signature, _, _, rfl⟩ := sign_ok h
  intro s hs
  rcases List.mem_append.mp hs with hs | hs
  · exact ht s hs
  · obtain rfl := List.mem_singleton.mp hs
    refine ⟨hheader, .inr ⟨_, ?_, rfl⟩⟩
    rw [Header.distinct_iff] at hprotected ⊢
    exact each_signerHeader (fun _ => trivial) hprotected alg key.kid?

theorem Obtained.genuine {t : Jws} (h : Obtained t) : ∀ s ∈ t.signatures, s.Genuine := by
  -- On how the token came about: each signature adds one entry and leaves the others.
  induction h with
  | new payload => simp
  | read hread => exact genuine_of_deserialize hread
  | signed _ hprotected hheader hsign ih => exact genuine_of_sign hsign hprotected hheader ih

def WholeNumbers (t : Jws) : Prop :=
  ∀ s ∈ t.signatures, s.protectedHeader.header.WholeNumbers ∧ s.header.WholeNumbers

def WithinDepth (t : Jws) (format : Format) : Prop :=
  (∀ s ∈ t.signatures, Json.depth s.protectedHeader.header.toJson ≤ Json.maxDepth) ∧
    match format with
    | .compact => True
    | .flat => ∀ s ∈ t.signatures, Json.depth (flatJson t.payload s) ≤ Json.maxDepth
    | .general => Json.depth t.generalJson ≤ Json.maxDepth

instance : DecidablePred WholeNumbers :=
  fun t => inferInstanceAs (Decidable (∀ s ∈ t.signatures, _))

instance (t : Jws) : DecidablePred t.WithinDepth
  | .compact => inferInstanceAs (Decidable (_ ∧ True))
  | .flat => inferInstanceAs (Decidable (_ ∧ _))
  | .general => inferInstanceAs (Decidable (_ ∧ _))

theorem depth_of_flatJson {payload : Bytes} {s : Signature}
    (h : Json.depth (flatJson payload s) ≤ Json.maxDepth) :
    Json.depth s.header.toJson ≤ flatLevels := by
  have hmembers := (Json.depth_object_le_iff _ 126).mp h
  refine depth_of_headerMember "header" 125 fun m hm => hmembers m ?_
  simp [entryMembers, hm]

theorem depth_of_generalJson {t : Jws} (h : Json.depth t.generalJson ≤ Json.maxDepth) :
    ∀ s ∈ t.signatures, Json.depth s.header.toJson ≤ entryLevels := by
  intro s hs
  -- A header is three levels down, below the document, the list and the entry.
  have hmembers := (Json.depth_object_le_iff _ 126).mp h
  have hentries := (Json.depth_array_le_iff _ 125).mp
    (hmembers _ (List.mem_cons_of_mem _ (List.mem_singleton_self _)))
  have hentry := (Json.depth_object_le_iff _ 124).mp
    (hentries (.object (entryMembers s)) (List.mem_map_of_mem hs))
  refine depth_of_headerMember "header" 123 fun m hm => hentry m ?_
  simp [entryMembers, hm]

theorem Obtained.kept {t : Jws} (h : Obtained t) (hnumbers : t.WholeNumbers) {format : Format}
    (hdepth : t.WithinDepth format) : ∀ s ∈ t.signatures, s.protectedHeader.Kept :=
  fun s hs => (h.genuine s hs).protectedHeader.kept (hnumbers s hs).1 (hdepth.1 s hs)

theorem Obtained.portable {t : Jws} (h : Obtained t) (hnumbers : t.WholeNumbers) (levels : Nat)
    (hdepth : ∀ s ∈ t.signatures, Json.depth s.header.toJson ≤ levels) :
    ∀ s ∈ t.signatures, s.header.Portable levels :=
  fun s hs => (Header.portable_iff levels s.header).mpr
    ⟨(h.genuine s hs).header, (hnumbers s hs).2, hdepth s hs⟩

theorem obtained_roundTrip {t : Jws} (ht : Obtained t) (hnumbers : t.WholeNumbers)
    (format : Format) (hdepth : t.WithinDepth format) :
    ((∃ text, t.serialize format = .ok text) ↔
      t.signatures ≠ [] ∧ (format = .general ∨ t.signatures.length = 1) ∧
        (format ≠ .compact ∨ ∀ s ∈ t.signatures, s.header = {})) ∧
    ∀ text, t.serialize format = .ok text →
      (format = .compact → ∀ s ∈ t.signatures, s.signature ≠ []) →
      deserialize text = .ok t := by
  refine ⟨serialize_ok_iff t format, fun text htext hsignature => ?_⟩
  have hkept := ht.kept hnumbers hdepth
  have hportable := ht.portable hnumbers
  obtain ⟨hsome, hone, hempty⟩ := (serialize_ok_iff t format).mp ⟨text, htext⟩
  cases format with
  | general =>
      rw [serialize_general hsome] at htext
      cases htext
      exact deserialize_general hsome hkept (hportable _ (depth_of_generalJson hdepth.2))
  | flat =>
      obtain ⟨s, hs⟩ := List.length_eq_one_iff.mp (hone.resolve_left Format.noConfusion)
      have hmem : s ∈ t.signatures := by simp [hs]
      rw [serialize_flat hs] at htext
      cases htext
      rw [deserialize_flat t.payload (hkept s hmem)
        (hportable _ (fun s hs => depth_of_flatJson (hdepth.2 s hs)) s hmem), ← hs]
  | compact =>
      obtain ⟨s, hs⟩ := List.length_eq_one_iff.mp (hone.resolve_left Format.noConfusion)
      have hmem : s ∈ t.signatures := by simp [hs]
      have hheader := hempty.resolve_left (not_not_intro rfl) s hmem
      rw [serialize_compact hs hheader] at htext
      cases htext
      rw [deserialize_compact t.payload (hkept s hmem) hheader (hsignature rfl s hmem), ← hs]

def foreignText : String :=
  "\x7b\"signature\":\"AQ\",\"header\":\x7b\"kid\":\"k\",\"b\":[-7,null]\x7d," ++
    "\"payload\":\"aGk\",\"protected\":\"eyAiYSI6MSwiYSI6MiB9\"\x7d"

def countersigned : Except Error Jws := do
  let key : Jwk := { labels := { alg := some "HS256" }, material := .oct [7, 7, 7, 7] }
  let t ← deserialize foreignText
  sign (Engine.software {} (.memory ⟨[((.secret, "k"), ⟨key, []⟩)]⟩)) t
    { name := "k", storage := .secret } .general {}

theorem obtained_roundTrip_countersigned :
    ∃ t text, countersigned = .ok t ∧ t.signatures.length = 2 ∧
      t.serialize .general = .ok text ∧ deserialize text = .ok t ∧
      ∀ text, t.serialize .flat ≠ .ok text := by
  obtain ⟨t, ht, hlength, hnumbers, hgeneral, hflat⟩ := exists_of_any
    (P := fun t => t.signatures.length = 2 ∧ t.WholeNumbers ∧ t.WithinDepth .general ∧
      t.WithinDepth .flat)
    (x := countersigned) (by decide +kernel)
  have hobtained : Obtained t := by
    rw [countersigned] at ht
    obtain ⟨_, hread, hsign⟩ := bind_eq_ok ht
    exact .signed (.read hread) Header.distinct_empty Header.distinct_empty hsign
  have hsome : t.signatures ≠ [] := List.ne_nil_of_length_pos (by omega)
  obtain ⟨hwritten, hback⟩ := obtained_roundTrip hobtained hnumbers .general hgeneral
  obtain ⟨text, htext⟩ := hwritten.mpr ⟨hsome, .inl rfl, .inl Format.noConfusion⟩
  refine ⟨t, text, ht, hlength, htext, hback text htext Format.noConfusion, fun text htext => ?_⟩
  obtain ⟨_, hone, _⟩ := (obtained_roundTrip hobtained hnumbers .flat hflat).1.mp ⟨text, htext⟩
  rw [hlength] at hone
  exact hone.elim Format.noConfusion (by decide)

end Jws

end JoseTokens
