import JoseTokens.Proofs.Token.Recipients

namespace JoseTokens.Jwe

def flatForm (t : Jwe) (r : Recipient) : Form :=
  { generalForm t with single := recipientForm r, recipients := none }

theorem fills_flat {d : Nat} {t : Jwe} {r : Recipient} (hunprotected : t.unprotected.Portable d)
    (hheader : r.header.Portable d) :
    record.Fills d {} (t.leadingMembers ++ recipientMembers r ++ t.contentMembers)
      (flatForm t r) := by
  have hset : record.Fills d
      { protectedText := t.protectedHeader.text?, unprotected := t.unprotected }
      (headerMember "header" r.header)
      { protectedText := t.protectedHeader.text?
        unprotected := t.unprotected
        single := { header := r.header } } :=
    fills_header "header" hheader rfl rfl rfl
  have hkey : record.Fills d
      { protectedText := t.protectedHeader.text?
        unprotected := t.unprotected
        single := { header := r.header } }
      [octetsMember "encrypted_key" r.encryptedKey]
      { protectedText := t.protectedHeader.text?
        unprotected := t.unprotected
        single := recipientForm r } :=
    fills_octets "encrypted_key" r.encryptedKey rfl rfl
  exact ((fills_leading hunprotected).append (hset.append hkey)).append (fills_content t _ rfl)

theorem nodup_flatMembers (t : Jwe) (r : Recipient) :
    ((t.leadingMembers ++ recipientMembers r ++ t.contentMembers).map (·.1)).Nodup := by
  have hnames : List.Sublist
      ((t.leadingMembers ++ recipientMembers r ++ t.contentMembers).map (·.1))
      ["protected", "unprotected", "header", "encrypted_key", "aad", "iv", "ciphertext", "tag"] := by
    rw [List.map_append, List.map_append]
    exact ((names_leadingMembers t).append (names_recipientMembers r)).append
      (names_contentMembers t)
  exact hnames.nodup (by decide)

theorem ofForm_flatForm {t : Jwe} {r : Recipient} (hkept : t.protectedHeader.Kept)
    (hr : t.recipients = [r]) : ofForm (flatForm t r) = .ok t := by
  refine ofForm_filled hkept (recipientForm r) none ?_
  simp only [recipientsOf, recipientOf_recipientForm, hr]
  rfl

theorem deserialize_flat {t : Jwe} {r : Recipient} (hcomplete : t.Complete)
    (hkept : t.protectedHeader.Kept) (hr : t.recipients = [r])
    (hunprotected : t.unprotected.Portable unprotectedLevels)
    (hheader : r.header.Portable unprotectedLevels) :
    deserialize (t.flatJson r).compact = .ok t := by
  have hread : Json.document (record.read {}) (t.flatJson r).bytes = .ok (flatForm t r) :=
    Json.document_of_reads (Json.Record.reads_object (fills_flat hunprotected hheader)
      (nodup_flatMembers t r) (by decide))
  exact deserialize_object hread (ofForm_flatForm hkept hr) hcomplete

theorem fitsCompact_iff (t : Jwe) (r : Recipient) :
    t.fitsCompact r = true ↔ t.unprotected = {} ∧ r.header = {} ∧ t.aad = [] := by
  have hempty (h : Header) : h.isEmpty = true ↔ h = {} :=
    ⟨Header.eq_empty, fun heq => by rw [heq]; rfl⟩
  simp only [fitsCompact, Bool.and_eq_true, hempty, List.isEmpty_iff, and_assoc]

section

variable {t : Jwe} {r : Recipient} (hcomplete : t.Complete)

include hcomplete

theorem serialize_flat (hr : t.recipients = [r]) :
    t.serialize .flat = .ok (t.flatJson r).compact := by
  unfold serialize
  simp only [check_complete hcomplete, hr]
  rfl

theorem serialize_unfit (hr : t.recipients = [r]) (hfits : t.fitsCompact r = false) :
    t.serialize .compact = .error (.invalidArgument .compactExtras) := by
  unfold serialize
  simp only [check_complete hcomplete, hr, hfits]
  rfl

theorem serialize_several (hseveral : t.recipients.length ≠ 1) {format : Format}
    (hformat : format ≠ .general) :
    t.serialize format = .error (.tooManyRecipients t.recipients.length) := by
  unfold serialize
  simp only [check_complete hcomplete]
  match hlist : t.recipients, format with
  | _, .general => exact absurd rfl hformat
  | [_], _ => simp [hlist] at hseveral
  | [], .flat | [], .compact => rfl
  | _ :: _ :: _, .flat | _ :: _ :: _, .compact => rfl

theorem serialize_ok_iff (format : Format) :
    (∃ text, t.serialize format = .ok text) ↔
      format = .general ∨ t.recipients.length = 1 ∧ (format = .flat ∨ format = .compact ∧
        t.unprotected = {} ∧ (∀ r ∈ t.recipients, r.header = {}) ∧ t.aad = []) := by
  by_cases hone : t.recipients.length = 1
  · obtain ⟨r, hr⟩ := List.length_eq_one_iff.mp hone
    cases format with
    | general => simp [serialize_general hcomplete]
    | flat => simp [serialize_flat hcomplete hr, hr]
    | compact =>
        have hiff := fitsCompact_iff t r
        cases hfits : t.fitsCompact r with
        | true =>
            rw [hfits] at hiff
            simpa [serialize_compact hcomplete hr hfits, hr] using hiff
        | false =>
            rw [hfits] at hiff
            simpa [serialize_unfit hcomplete hr hfits, hr] using hiff
  · by_cases hformat : format = .general
    · simp [hformat, serialize_general hcomplete]
    · simp [serialize_several hcomplete hone hformat, hformat, hone]

theorem serialize_not_malformed (format : Format) (part : String) :
    t.serialize format ≠ .error (.malformedToken part) := by
  intro h
  by_cases hone : t.recipients.length = 1
  · obtain ⟨r, hr⟩ := List.length_eq_one_iff.mp hone
    cases format with
    | general =>
        rw [serialize_general hcomplete] at h
        cases h
    | flat =>
        rw [serialize_flat hcomplete hr] at h
        cases h
    | compact =>
        cases hfits : t.fitsCompact r with
        | true =>
            rw [serialize_compact hcomplete hr hfits] at h
            cases h
        | false =>
            rw [serialize_unfit hcomplete hr hfits] at h
            cases h
  · by_cases hformat : format = .general
    · rw [hformat, serialize_general hcomplete] at h
      cases h
    · rw [serialize_several hcomplete hone hformat] at h
      cases h

end

inductive Obtained : Jwe → Prop
  | read {text : String} {t : Jwe} : deserialize text = .ok t → Obtained t
  | encrypted {config : Config} {store : KeyStore} {recipients : List Jwk} {payload : Bytes}
      {format : Format} {options : EncryptOptions} {entropy : Entropy} {t : Jwe} :
      options.protectedHeader.Distinct → options.unprotected.Distinct →
      encrypt (Engine.software config store) recipients payload format options entropy = .ok t →
      Obtained t

structure Genuine (t : Jwe) : Prop where
  protectedHeader : t.protectedHeader.Genuine
  unprotected : t.unprotected.Distinct
  recipients : ∀ r ∈ t.recipients, r.header.Distinct

theorem yields_recipientRecord (d : Nat) :
    Json.Yields (recipientRecord.read {} d) fun f => f.header.Distinct := by
  refine Json.Record.yields_read (P := fun f : RecipientForm => f.header.Distinct) ?_
    Header.distinct_empty d
  simp only [recipientRecord, List.forall_mem_cons, List.not_mem_nil, false_implies,
    implies_true, and_true]
  refine ⟨Json.Member.keeps_of Header.yields_read ?_ _ _, Json.Member.keeps_any ?_ _ _⟩
  · exact fun _ _ hheader _ => hheader
  · exact fun _ _ hf => hf

def Form.Distinct (f : Form) : Prop :=
  f.unprotected.Distinct ∧ f.single.header.Distinct ∧
    ∀ forms ∈ f.recipients, ∀ e ∈ forms, e.header.Distinct

theorem yields_record (d : Nat) : Json.Yields (record.read {} d) Form.Distinct := by
  refine Json.Record.yields_read ?_ ⟨Header.distinct_empty, Header.distinct_empty, by simp⟩ d
  simp only [record, List.forall_mem_cons, List.not_mem_nil, false_implies, implies_true,
    and_true]
  have hrecipients (d : Nat) := Json.yields_optional (Json.yields_list yields_recipientRecord d)
  refine ⟨Json.Member.keeps_any ?_ _ _, Json.Member.keeps_of Header.yields_read ?_ _ _,
    Json.Member.keeps_of Header.yields_read ?_ _ _, Json.Member.keeps_any ?_ _ _,
    Json.Member.keeps_of hrecipients ?_ _ _, Json.Member.keeps_any ?_ _ _,
    Json.Member.keeps_any ?_ _ _, Json.Member.keeps_any ?_ _ _, Json.Member.keeps_any ?_ _ _⟩
  · exact fun _ _ hf => hf
  · exact fun _ _ hheader hf => ⟨hheader, hf.2⟩
  · exact fun _ _ hheader hf => ⟨hf.1, hheader, hf.2.2⟩
  · exact fun _ _ hf => hf
  · exact fun _ _ hrecipients hf => ⟨hf.1, hf.2.1, hrecipients⟩
  · exact fun _ _ hf => hf
  · exact fun _ _ hf => hf
  · exact fun _ _ hf => hf
  · exact fun _ _ hf => hf

theorem distinct_of_recipientOf {f : RecipientForm} {r : Recipient} (h : recipientOf f = .ok r)
    (hf : f.header.Distinct) : r.header.Distinct := by
  obtain ⟨encryptedKey, _, heq⟩ := map_eq_ok h
  cases heq
  exact hf

theorem distinct_of_recipientsOf {f : Form} {recipients : List Recipient}
    (h : recipientsOf f = .ok recipients) (hf : f.Distinct) :
    ∀ r ∈ recipients, r.header.Distinct := by
  rw [recipientsOf] at h
  split at h
  · cases h
  next forms _ hforms =>
    intro r hr
    obtain ⟨e, he, hentry⟩ := forall₂_mem_right (mapM_eq_ok h) hr
    exact distinct_of_recipientOf hentry (hf.2.2 forms hforms e he)
  · obtain ⟨r, hr, heq⟩ := map_eq_ok h
    cases heq
    rw [List.forall_mem_singleton]
    exact distinct_of_recipientOf hr hf.2.1

theorem genuine_of_ofForm {f : Form} {t : Jwe} (h : ofForm f = .ok t) (hf : f.Distinct) :
    t.Genuine := by
  rw [ofForm] at h
  obtain ⟨recipients, hrecipients, h⟩ := bind_eq_ok h
  obtain ⟨p, hp, h⟩ := bind_eq_ok h
  obtain ⟨iv, _, h⟩ := bind_eq_ok h
  obtain ⟨aad, _, h⟩ := bind_eq_ok h
  obtain ⟨ciphertext, _, h⟩ := bind_eq_ok h
  obtain ⟨tag, _, h⟩ := bind_eq_ok h
  cases h
  exact ⟨.inl (Protected.kept_of_decode hp), hf.1,
    distinct_of_recipientsOf hrecipients hf⟩

theorem ofCompact_ok {protectedText encryptedKey iv ciphertext tag : String} {t : Jwe}
    (h : ofCompact protectedText encryptedKey iv ciphertext tag = .ok t) :
    ∃ r, t.recipients = [r] ∧ t.fitsCompact r ∧
      Protected.decode protectedText = .ok t.protectedHeader ∧
      decodeField "encrypted_key" encryptedKey = .ok r.encryptedKey ∧
      decodeField "iv" iv = .ok t.iv ∧ decodeField "ciphertext" ciphertext = .ok t.ciphertext ∧
      decodeField "tag" tag = .ok t.tag := by
  rw [ofCompact] at h
  obtain ⟨p, hp, h⟩ := bind_eq_ok h
  obtain ⟨_, hiv, h⟩ := bind_eq_ok h
  obtain ⟨_, hciphertext, h⟩ := bind_eq_ok h
  obtain ⟨_, htag, h⟩ := bind_eq_ok h
  obtain ⟨_, hkey, h⟩ := bind_eq_ok h
  cases h
  exact ⟨_, rfl, rfl, hp, hkey, hiv, hciphertext, htag⟩

theorem genuine_of_ofCompact {protectedText encryptedKey iv ciphertext tag : String} {t : Jwe}
    (h : ofCompact protectedText encryptedKey iv ciphertext tag = .ok t) : t.Genuine := by
  obtain ⟨r, hr, hfits, hp, _⟩ := ofCompact_ok h
  obtain ⟨hunprotected, hheader, _⟩ := (fitsCompact_iff t r).mp hfits
  refine ⟨.inl (Protected.kept_of_decode hp), ?_, ?_⟩
  · rw [hunprotected]
    exact Header.distinct_empty
  · rw [hr, List.forall_mem_singleton, hheader]
    exact Header.distinct_empty

theorem genuine_of_parse {text : String} {t : Jwe} (h : parse text = .ok t) : t.Genuine := by
  rw [parse] at h
  split at h
  · exact genuine_of_ofCompact h
  · rw [ofJson] at h
    split at h
    next f hf => exact genuine_of_ofForm h (Json.yields_document (yields_record _) hf)
    · cases h

theorem deserialize_ok_iff (text : String) (t : Jwe) :
    deserialize text = .ok t ↔ parse (Text.trim text) = .ok t ∧ t.Complete := by
  constructor
  · intro h
    rw [deserialize] at h
    obtain ⟨u, hparse, h⟩ := bind_eq_ok h
    obtain ⟨_, hcheck, h⟩ := bind_eq_ok h
    cases h
    exact ⟨hparse, complete_of_check hcheck⟩
  · rintro ⟨hparse, hcomplete⟩
    rw [deserialize, hparse]
    simp only [bind, Except.bind, check_complete hcomplete]
    rfl

theorem genuine_of_encrypt {config : Config} {store : KeyStore} {recipients : List Jwk}
    {payload : Bytes} {format : Format} {options : EncryptOptions} {entropy : Entropy} {t : Jwe}
    (h : encrypt (Engine.software config store) recipients payload format options entropy = .ok t)
    (hprotected : options.protectedHeader.Distinct)
    (hunprotected : options.unprotected.Distinct) : t.Complete ∧ t.Genuine := by
  obtain ⟨content, bits, hsent⟩ := encrypt_sent h
  obtain ⟨enc, kid, _, hheader⟩ := hsent.protectedHeader
  refine ⟨hsent.complete, ⟨.inr ⟨_, ?_, hheader⟩, ?_, fun r hr => ?_⟩⟩
  · rw [Header.distinct_iff] at hprotected ⊢
    exact each_senderHeader (fun _ => trivial) hprotected _ enc kid
  · rw [hsent.unprotected]
    exact hunprotected
  · obtain ⟨key, _, hwrapped⟩ := hsent.madeFor hr
    rw [hwrapped.header]
    exact ((Header.portable_iff 1 _).mp (portable_recipientHeader 0 _ _ key)).1

theorem Obtained.genuine {t : Jwe} (h : Obtained t) : t.Complete ∧ t.Genuine := by
  cases h with
  | read hread =>
      obtain ⟨hparse, hcomplete⟩ := (deserialize_ok_iff _ t).mp hread
      exact ⟨hcomplete, genuine_of_parse hparse⟩
  | encrypted hprotected hunprotected hencrypt =>
      exact genuine_of_encrypt hencrypt hprotected hunprotected

def WholeNumbers (t : Jwe) : Prop :=
  t.protectedHeader.header.WholeNumbers ∧ t.unprotected.WholeNumbers ∧
    ∀ r ∈ t.recipients, r.header.WholeNumbers

def WithinDepth (t : Jwe) (format : Format) : Prop :=
  Json.depth t.protectedHeader.header.toJson ≤ Json.maxDepth ∧
    match format with
    | .compact => True
    | .flat => ∀ r ∈ t.recipients, Json.depth (t.flatJson r) ≤ Json.maxDepth
    | .general => Json.depth t.generalJson ≤ Json.maxDepth

instance : DecidablePred WholeNumbers :=
  fun t => inferInstanceAs (Decidable (_ ∧ _ ∧ ∀ r ∈ t.recipients, _))

instance (t : Jwe) : DecidablePred t.WithinDepth
  | .compact => inferInstanceAs (Decidable (_ ∧ True))
  | .flat => inferInstanceAs (Decidable (_ ∧ _))
  | .general => inferInstanceAs (Decidable (_ ∧ _))

theorem depth_of_leadingMembers {t : Jwe}
    (h : ∀ m ∈ t.leadingMembers, Json.depth m.2 ≤ unprotectedLevels) :
    Json.depth t.unprotected.toJson ≤ unprotectedLevels :=
  depth_of_headerMember "unprotected" 125 fun m hm =>
    h m (List.mem_append_right _ hm)

theorem depth_of_flatJson {t : Jwe} {r : Recipient}
    (h : Json.depth (t.flatJson r) ≤ Json.maxDepth) :
    Json.depth t.unprotected.toJson ≤ unprotectedLevels ∧
      Json.depth r.header.toJson ≤ unprotectedLevels := by
  have hmembers := (Json.depth_object_le_iff _ unprotectedLevels).mp h
  refine ⟨depth_of_leadingMembers fun m hm => hmembers m (by simp [hm]), ?_⟩
  refine depth_of_headerMember "header" 125 fun m hm => hmembers m ?_
  simp [recipientMembers, hm]

theorem depth_of_generalJson {t : Jwe} (h : Json.depth t.generalJson ≤ Json.maxDepth) :
    Json.depth t.unprotected.toJson ≤ unprotectedLevels ∧
      ∀ r ∈ t.recipients, Json.depth r.header.toJson ≤ recipientLevels := by
  have hmembers := (Json.depth_object_le_iff _ unprotectedLevels).mp h
  refine ⟨depth_of_leadingMembers fun m hm => hmembers m (by simp [hm]), fun r hr => ?_⟩
  -- Below the document, the list and the entry.
  have hentries := (Json.depth_array_le_iff _ 125).mp (hmembers (recipientsMember t)
    (by simp [recipientsMember]))
  have hentry := (Json.depth_object_le_iff _ 124).mp
    (hentries (.object (recipientMembers r)) (List.mem_map_of_mem hr))
  refine depth_of_headerMember "header" 123 fun m hm => hentry m ?_
  simp [recipientMembers, hm]

theorem obtained_reread {t : Jwe} (ht : Obtained t) (hnumbers : t.WholeNumbers) (format : Format)
    (hdepth : t.WithinDepth format) :
    (∀ part, t.serialize format ≠ .error (.malformedToken part)) ∧
      ((∃ text, t.serialize format = .ok text) ↔
        format = .general ∨ t.recipients.length = 1 ∧ (format = .flat ∨ format = .compact ∧
          t.unprotected = {} ∧ (∀ r ∈ t.recipients, r.header = {}) ∧ t.aad = [])) ∧
      ∀ text, t.serialize format = .ok text → deserialize text = .ok t := by
  obtain ⟨hcomplete, hgenuine⟩ := ht.genuine
  refine ⟨serialize_not_malformed hcomplete format, serialize_ok_iff hcomplete format,
    fun text htext => ?_⟩
  obtain ⟨hwhole, hunprotected, hrecipients⟩ := hnumbers
  have hkept := hgenuine.protectedHeader.kept hwhole hdepth.1
  have hshared (hlevels : Json.depth t.unprotected.toJson ≤ unprotectedLevels) :
      t.unprotected.Portable unprotectedLevels :=
    (Header.portable_iff _ _).mpr ⟨hgenuine.unprotected, hunprotected, hlevels⟩
  have hown {levels : Nat} {r : Recipient} (hr : r ∈ t.recipients)
      (hlevels : Json.depth r.header.toJson ≤ levels) : r.header.Portable levels :=
    (Header.portable_iff _ _).mpr ⟨hgenuine.recipients r hr, hrecipients r hr, hlevels⟩
  have hfits := (serialize_ok_iff hcomplete format).mp ⟨text, htext⟩
  cases format with
  | general =>
      obtain ⟨hlevels, hentries⟩ := depth_of_generalJson hdepth.2
      rw [serialize_general hcomplete] at htext
      cases htext
      exact deserialize_general hcomplete hkept (hshared hlevels) fun r hr => hown hr (hentries r hr)
  | flat =>
      obtain ⟨r, hr⟩ := List.length_eq_one_iff.mp (hfits.resolve_left Format.noConfusion).1
      have hmem : r ∈ t.recipients := by simp [hr]
      obtain ⟨hlevels, hentry⟩ := depth_of_flatJson (hdepth.2 r hmem)
      rw [serialize_flat hcomplete hr] at htext
      cases htext
      exact deserialize_flat hcomplete hkept hr (hshared hlevels) (hown hmem hentry)
  | compact =>
      obtain ⟨hone, hextras⟩ := hfits.resolve_left Format.noConfusion
      obtain ⟨r, hr⟩ := List.length_eq_one_iff.mp hone
      obtain ⟨_, hempty, hheaders, haad⟩ := hextras.resolve_left Format.noConfusion
      have hfits := (fitsCompact_iff t r).mpr ⟨hempty, hheaders r (by simp [hr]), haad⟩
      rw [serialize_compact hcomplete hr hfits] at htext
      cases htext
      exact deserialize_compact hcomplete hr hfits hkept

theorem obtained_reread_flat :
    ∃ t text other, encrypt (Engine.software { keyEncryption := "RSA-OAEP" } (.memory {}))
        [narrowKey none] [4, 5, 6] .flat partyOptions ⟨UInt8.ofNat⟩ = .ok t ∧
      t.serialize .flat = .ok text ∧ deserialize text = .ok t ∧
      t.serialize .general = .ok other ∧ deserialize other = .ok t ∧
      ∀ text, t.serialize .compact ≠ .ok text := by
  obtain ⟨t, ht, hlone, haad, hnumbers, hdepth⟩ := exists_of_any
    (P := fun t : Jwe => t.recipients.length = 1 ∧ t.aad ≠ [] ∧ t.WholeNumbers ∧
      t.WithinDepth .flat ∧ t.WithinDepth .general ∧ t.WithinDepth .compact)
    (x := encrypt (Engine.software { keyEncryption := "RSA-OAEP" } (.memory {}))
      [narrowKey none] [4, 5, 6] .flat partyOptions ⟨UInt8.ofNat⟩) (by decide +kernel)
  obtain ⟨hflat, hgeneral, hcompact⟩ := hdepth
  have hobtained : Obtained t := .encrypted (by decide) (by decide) ht
  obtain ⟨_, hwritten, hback⟩ := obtained_reread hobtained hnumbers .flat hflat
  obtain ⟨text, htext⟩ := hwritten.mpr (.inr ⟨hlone, .inl rfl⟩)
  obtain ⟨_, hwritten', hback'⟩ := obtained_reread hobtained hnumbers .general hgeneral
  obtain ⟨other, hother⟩ := hwritten'.mpr (.inl rfl)
  refine ⟨t, text, other, ht, htext, hback text htext, hother, hback' other hother, ?_⟩
  intro text htext
  obtain ⟨_, hwritten, _⟩ := obtained_reread hobtained hnumbers .compact hcompact
  obtain ⟨_, hextras⟩ := (hwritten.mp ⟨text, htext⟩).resolve_left Format.noConfusion
  obtain ⟨_, _, _, hnone⟩ := hextras.resolve_left Format.noConfusion
  exact haad hnone

end JoseTokens.Jwe
