import JoseTokens.Proofs.Crypto.ContentCipher
import JoseTokens.Proofs.Engine.Software
import JoseTokens.Proofs.Token.JweText

namespace JoseTokens

namespace Algorithm

theorem ofId_ne_aesGcm {id : String} {bits tagLength : Nat} {iv aad : Bytes} :
    ofId id ≠ .ok (.aesGcm bits iv aad tagLength) := by
  intro h
  unfold ofId at h
  split at h
  · cases h
  · split at h
    next a ha =>
      cases h
      unfold plain? at ha
      split at ha <;> cases ha
    · cases h

theorem encrypt_plain {id : String} {a : Algorithm} (ha : ofId id = .ok a) {key : Jwk}
    {entropy : Entropy} {content wrapped : Bytes}
    (h : a.encrypt key entropy content = .ok wrapped) : ∃ hash, a = .rsaOaep hash := by
  cases a with
  | rsaOaep hash => exact ⟨hash, rfl⟩
  | aesGcm bits iv aad tagLength => exact absurd ha ofId_ne_aesGcm
  | ecdsa curve hash => cases h
  | eddsa curve => cases h
  | rsaSignature hash => cases h
  | hmac hash => cases h
  | digest hash => cases h

theorem encrypt_rsaOaep {hash : HashName} {key : Jwk} {entropy : Entropy}
    {content wrapped : Bytes} (h : (rsaOaep hash).encrypt key entropy content = .ok wrapped) :
    ∃ shown secret numbers, key.material = .rsa shown secret ∧ shown.numbers = .ok numbers ∧
      numbers.encrypt hash (entropy.take hash.size) content = .ok wrapped := by
  unfold encrypt at h
  cases hmaterial : key.material with
  | rsa shown secret =>
      rw [hmaterial] at h
      obtain ⟨numbers, hnumbers, h⟩ := bind_eq_ok h
      split at h
      next ciphertext hciphertext =>
        cases h
        exact ⟨shown, secret, numbers, rfl, hnumbers, hciphertext⟩
      · cases h
  | ec shown d => rw [hmaterial] at h; cases h
  | okp shown d => rw [hmaterial] at h; cases h
  | oct k => rw [hmaterial] at h; cases h

theorem encrypt_rsaOaep_ne_nil {hash : HashName} {key : Jwk} {entropy : Entropy}
    {content wrapped : Bytes} (h : (rsaOaep hash).encrypt key entropy content = .ok wrapped) :
    wrapped ≠ [] := by
  obtain ⟨shown, secret, numbers, _, _, hwrapped⟩ := encrypt_rsaOaep h
  rw [Rsa.PublicKey.encrypt] at hwrapped
  split at hwrapped
  · cases hwrapped
  · cases hwrapped
    intro hnil
    have hlength := congrArg List.length hnil
    rw [Bytes.length_ofNat] at hlength
    exact Nat.succ_ne_zero _ hlength

theorem checkKey_of_decrypt {hash : HashName} {key : Jwk} {wrapped content : Bytes}
    (h : (rsaOaep hash).decrypt key wrapped = .ok content) :
    (rsaOaep hash).checkKey key = .ok () := by
  obtain ⟨labels, material⟩ := key
  cases material with
  | rsa shown secret =>
      cases secret with
      | none => cases h
      | some secret =>
          obtain ⟨numbers, hnumbers, _⟩ := bind_eq_ok h
          have hmaterial : Software.checkMaterial (.rsa shown (some secret)) = .ok () := by
            rw [Software.checkMaterial, hnumbers]
            rfl
          have himport : Software.importKey ⟨"RSA-OAEP", .rsa, none, some hash⟩
              ⟨labels, .rsa shown (some secret)⟩ true =
                .ok ⟨⟨"RSA-OAEP", .rsa, none, some hash⟩, ⟨labels, .rsa shown (some secret)⟩,
                  true⟩ := by
            rw [Software.importKey, hmaterial]
            rfl
          change (Software.importKey ⟨"RSA-OAEP", .rsa, none, some hash⟩
            ⟨labels, .rsa shown (some secret)⟩ true).map _ = _
          rw [himport]
          rfl
  | ec shown d => cases h
  | okp shown d => cases h
  | oct k => cases h

end Algorithm

namespace Jwe

theorem requireCapability_ok {wanted : Capability} {name alg : String}
    (h : requireCapability wanted name = .ok alg) : name = alg := by
  rw [requireCapability] at h
  split at h
  · exact Except.ok.inj h
  · cases h

theorem mapM_requireCapability {wanted : Capability} {recipients : List Jwk} {name : Jwk → String}
    {algs : List String}
    (h : recipients.mapM (fun key => requireCapability wanted (name key)) = .ok algs) :
    algs = recipients.map name := by
  have heach : List.Forall₂ (fun key alg => name key = alg) recipients algs :=
    (mapM_eq_ok h).imp fun _ _ => requireCapability_ok
  rw [← List.forall₂_map_left_iff, List.forall₂_eq_eq_eq] at heach
  exact heach.symm

structure WrappedFor (lone : Bool) (content : Bytes) (key : Jwk) (alg : String)
    (r : Recipient) : Prop where
  header : r.header = recipientHeader lone alg key
  wraps : ∃ hash entropy, Algorithm.ofId alg = .ok (.rsaOaep hash) ∧
    (Algorithm.rsaOaep hash).encrypt key entropy content = .ok r.encryptedKey

theorem wrapAll_ok {config : Config} {store : KeyStore} {lone : Bool} {content : Bytes}
    {entropy : Entropy} {recipients : List Jwk} {name : Jwk → String} {wrapped : List Recipient}
    (h : wrapAll (Engine.software config store) lone content entropy
      (recipients.zip (recipients.map name)) = .ok wrapped) :
    List.Forall₂ (fun key r => WrappedFor lone content key (name key) r) recipients wrapped := by
  induction recipients generalizing entropy wrapped with
  | nil =>
      cases h
      exact .nil
  | cons key recipients ih =>
      rw [List.map_cons, List.zip_cons_cons, wrapAll] at h
      obtain ⟨encryptedKey, hkey, h⟩ := bind_eq_ok h
      obtain ⟨others, hothers, h⟩ := bind_eq_ok h
      cases h
      rw [Engine.encryptForKey_software] at hkey
      obtain ⟨a, ha, hkey⟩ := bind_eq_ok hkey
      obtain ⟨_, _, hkey⟩ := bind_eq_ok hkey
      obtain ⟨hash, rfl⟩ := Algorithm.encrypt_plain ha hkey
      exact .cons ⟨rfl, hash, _, ha, hkey⟩ (ih hothers)

structure Sent (config : Config) (recipients : List Jwk) (payload : Bytes) (format : Format)
    (options : EncryptOptions) (content : Bytes) (bits : Nat) (t : Jwe) : Prop where
  fault : encryptFault? recipients payload format options = none
  unprotected : t.unprotected = options.unprotected
  aad : t.aad = options.aad.getD []
  protectedHeader : ∃ enc kid, Algorithm.contentBits? enc = some bits ∧
    t.protectedHeader = Protected.ofHeader (senderHeader
      ((recipients.map fun key => key.alg?.getD config.keyEncryption).headD "") enc kid
      options.protectedHeader)
  recipients : List.Forall₂ (fun key r => WrappedFor (recipients.length == 1) content key
    (key.alg?.getD config.keyEncryption) r) recipients t.recipients
  cipher : Algorithm.cipherFault? bits t.iv Algorithm.tagBits content = none
  sealed : t.ciphertext ++ t.tag =
    Gcm.encrypt content t.iv (authenticatedData t.protectedHeader t.aad) payload
  tag : t.tag.length = Gcm.tagSize

theorem splitTag_ok {whole ciphertext tag : Bytes} (h : splitTag whole = .ok (ciphertext, tag)) :
    ciphertext ++ tag = whole ∧ tag.length = Gcm.tagSize := by
  rw [splitTag] at h
  split at h
  · cases h
  · cases h
    refine ⟨List.take_append_drop _ _, ?_⟩
    rw [List.length_drop]
    omega

theorem ofId_cipher {enc : String} {iv aad : Bytes} {a : Algorithm} {entropy : Entropy}
    {content payload whole : Bytes}
    (ha : Algorithm.ofId enc ⟨some iv, some aad⟩ = .ok a)
    (h : a.encrypt (Jwk.oct content) entropy payload = .ok whole) :
    ∃ bits, Algorithm.contentBits? enc = some bits ∧
      a = .aesGcm bits iv aad Algorithm.tagBits := by
  unfold Algorithm.ofId at ha
  cases hbits : Algorithm.contentBits? enc with
  | some bits =>
      rw [hbits] at ha
      cases ha
      exact ⟨bits, rfl, rfl⟩
  | none =>
      have hplain : Algorithm.ofId enc = .ok a := by
        unfold Algorithm.ofId
        rw [hbits] at ha ⊢
        exact ha
      obtain ⟨hash, rfl⟩ := Algorithm.encrypt_plain hplain h
      cases h

theorem encrypt_sent {config : Config} {store : KeyStore} {recipients : List Jwk}
    {payload : Bytes} {format : Format} {options : EncryptOptions} {entropy : Entropy} {t : Jwe}
    (h : encrypt (Engine.software config store) recipients payload format options entropy =
      .ok t) :
    ∃ content bits, Sent config recipients payload format options content bits t := by
  rw [encrypt] at h
  cases hfault : encryptFault? recipients payload format options with
  | some fault =>
      rw [hfault] at h
      cases h
  | none =>
      rw [hfault] at h
      obtain ⟨enc, henc, h⟩ := bind_eq_ok h
      obtain ⟨algs, halgs, h⟩ := bind_eq_ok h
      obtain ⟨content, hcontent, h⟩ := bind_eq_ok h
      obtain ⟨wrapped, hwrapped, h⟩ := bind_eq_ok h
      obtain ⟨a, ha, h⟩ := bind_eq_ok h
      obtain ⟨whole, hwhole, h⟩ := bind_eq_ok h
      obtain ⟨⟨ciphertext, tag⟩, htag, h⟩ := bind_eq_ok h
      rw [liftResult_except] at halgs ha htag
      cases h
      obtain rfl := mapM_requireCapability halgs
      have hid := Algorithm.id?_ofId ha
      rw [Engine.encrypt_software hid] at hwhole
      obtain ⟨_, _, hwhole⟩ := bind_eq_ok hwhole
      obtain ⟨bits, hbits, rfl⟩ := ofId_cipher ha hwhole
      obtain ⟨hworkable, rfl⟩ := (Algorithm.encrypt_aesGcm_eq_ok_iff rfl).mp hwhole
      obtain ⟨hsealed, hsize⟩ := splitTag_ok htag
      exact ⟨content, bits, {
        fault := hfault
        unprotected := rfl
        aad := rfl
        protectedHeader := ⟨enc, _, hbits, rfl⟩
        recipients := wrapAll_ok hwrapped
        cipher := hworkable.cipherFault?
        sealed := hsealed
        tag := hsize }⟩

theorem checkKey_aesGcm {bits : Nat} {iv aad content : Bytes}
    (h : Algorithm.Workable bits iv Algorithm.tagBits content) :
    (Algorithm.aesGcm bits iv aad Algorithm.tagBits).checkKey (Jwk.oct content) = .ok () := by
  obtain ⟨count, hcount, hcontent⟩ := h.words
  have hbind : (Algorithm.aesGcm bits iv aad Algorithm.tagBits).bind (Jwk.oct content) =
      .ok ⟨"AES-GCM", .oct, none, none⟩ := by
    simp [Algorithm.bind, Algorithm.needs?, Algorithm.misfit?, Jwk.oct, Jwk.keyType,
      Material.keyType, h.key, Algorithm.family, Algorithm.boundHash?]
  rw [Algorithm.checkKey, hbind]
  cases content with
  | nil =>
      rw [List.length_nil] at hcontent
      omega
  | cons b content => rfl

theorem encryptFault?_none {recipients : List Jwk} {payload : Bytes} {format : Format}
    {options : EncryptOptions} (h : encryptFault? recipients payload format options = none) :
    recipients ≠ [] ∧ payload ≠ [] ∧ (format.isMultiParty = false → recipients.length ≤ 1) ∧
      (format = .compact → options.unprotected = {} ∧ options.aad = none) := by
  rw [encryptFault?] at h
  split at h
  · cases h
  next hrecipients =>
    split at h
    · cases h
    next hpayload =>
      split at h
      · cases h
      next hparties =>
        split at h
        · cases h
        next hcompact =>
          refine ⟨by simpa using hrecipients, by simpa using hpayload, ?_, ?_⟩
          · intro hsingle
            simpa [hsingle] using hparties
          · rintro rfl
            have hextras : options.unprotected.isEmpty = true ∧ options.aad = none := by
              simpa using hcompact
            exact ⟨Header.eq_empty hextras.1, hextras.2⟩

section

variable {config : Config} {recipients : List Jwk} {payload : Bytes} {format : Format}
  {options : EncryptOptions} {content : Bytes} {bits : Nat} {t : Jwe}

theorem Sent.workable (h : Sent config recipients payload format options content bits t) :
    Algorithm.Workable bits t.iv Algorithm.tagBits content :=
  Algorithm.cipherFault?_eq_none_iff.mp h.cipher

theorem Sent.length_ciphertext (h : Sent config recipients payload format options content bits t) :
    t.ciphertext.length = payload.length := by
  have hlength := congrArg List.length h.sealed
  rw [List.length_append, h.tag, (h.workable.split _ payload).1] at hlength
  exact Nat.add_right_cancel hlength

theorem Sent.madeFor (h : Sent config recipients payload format options content bits t)
    {r : Recipient} (hr : r ∈ t.recipients) :
    ∃ key, (key, r) ∈ recipients.zip t.recipients ∧
      WrappedFor (recipients.length == 1) content key (key.alg?.getD config.keyEncryption) r := by
  obtain ⟨i, hi, hget⟩ := List.mem_iff_getElem.mp hr
  have hbound : i < recipients.length := by
    rw [h.recipients.length_eq]
    exact hi
  have hmem : (recipients[i], r) ∈ recipients.zip t.recipients := by
    rw [List.mem_iff_getElem]
    refine ⟨i, by rw [List.length_zip, Nat.lt_min]; exact ⟨hbound, hi⟩, ?_⟩
    rw [List.getElem_zip, hget]
  exact ⟨recipients[i], hmem, List.forall₂_zip h.recipients hmem⟩

theorem Sent.entryOf (h : Sent config recipients payload format options content bits t)
    {key : Jwk} (hkey : key ∈ recipients) : ∃ r, (key, r) ∈ recipients.zip t.recipients := by
  obtain ⟨i, hi, hget⟩ := List.mem_iff_getElem.mp hkey
  have hbound : i < t.recipients.length := by
    rw [← h.recipients.length_eq]
    exact hi
  refine ⟨t.recipients[i], List.mem_iff_getElem.mpr ⟨i, ?_, ?_⟩⟩
  · rw [List.length_zip, Nat.lt_min]
    exact ⟨hi, hbound⟩
  · rw [List.getElem_zip, hget]

theorem Sent.complete (h : Sent config recipients payload format options content bits t) :
    t.Complete := by
  obtain ⟨hrecipients, hpayload, _, _⟩ := encryptFault?_none h.fault
  have hiv := h.workable.vector
  refine (complete_iff t).mpr ⟨?_, ?_, ?_, ?_⟩
  · intro hnil
    have hlength := h.length_ciphertext
    rw [hnil] at hlength
    exact hpayload (List.length_eq_zero_iff.mp hlength.symm)
  · intro hnil
    rw [hnil] at hiv
    cases hiv
  · intro hnil
    have hlength := h.recipients.length_eq
    rw [hnil] at hlength
    exact hrecipients (List.length_eq_zero_iff.mp hlength)
  · intro r hr
    obtain ⟨key, _, hwrapped⟩ := h.madeFor hr
    obtain ⟨hash, entropy, _, hwraps⟩ := hwrapped.wraps
    exact Algorithm.encrypt_rsaOaep_ne_nil hwraps

theorem portable_recipientHeader (d : Nat) (lone : Bool) (alg : String) (key : Jwk) :
    (recipientHeader lone alg key).Portable (d + 1) := by
  cases lone with
  | true => exact Header.portable_empty d
  | false =>
      exact Header.portable_insertText? (Header.portable_insertText (Header.portable_empty d)
        "alg" alg) "kid" key.kid?

theorem alg?_recipientHeader (alg : String) (key : Jwk) :
    (recipientHeader false alg key).alg? = some alg := by
  have hfound : (recipientHeader false alg key).find? "alg" = some (.string alg) := by
    rw [recipientHeader, if_neg Bool.false_ne_true, Header.find?_insertText?_other _ (by decide)]
    exact Header.find?_insert_self _ _ _
  rw [Header.alg?, Header.text?, hfound]
  rfl

theorem Sent.enc (h : Sent config recipients payload format options content bits t) :
    ∃ enc, Algorithm.contentBits? enc = some bits ∧
      t.protectedHeader.header.enc? = some enc := by
  obtain ⟨enc, kid, hbits, hprotected⟩ := h.protectedHeader
  refine ⟨enc, hbits, ?_⟩
  rw [hprotected]
  exact enc?_senderHeader _ enc kid options.protectedHeader

theorem Sent.sole {key : Jwk} (h : Sent config [key] payload format options content bits t) :
    ∃ r, t.recipients = [r] ∧
      WrappedFor true content key (key.alg?.getD config.keyEncryption) r := by
  have hentries := h.recipients
  cases hlist : t.recipients with
  | nil =>
      rw [hlist] at hentries
      cases hentries
  | cons r others =>
      rw [hlist] at hentries
      obtain ⟨hwrapped, hrest⟩ := List.forall₂_cons.mp hentries
      cases hrest
      exact ⟨r, rfl, hwrapped⟩

theorem Sent.lone (h : Sent config recipients payload format options content bits t)
    (hformat : format = .compact) : ∃ key r, recipients = [key] ∧ t.recipients = [r] ∧
      WrappedFor true content key (key.alg?.getD config.keyEncryption) r := by
  obtain ⟨hrecipients, _, hparties, _⟩ := encryptFault?_none h.fault
  have hlength : recipients.length = 1 := by
    have hpos := List.length_pos_iff.mpr hrecipients
    have hsingle := hparties (by rw [hformat]; rfl)
    omega
  obtain ⟨key, rfl⟩ := List.length_eq_one_iff.mp hlength
  obtain ⟨r, hentry, hwrapped⟩ := h.sole
  exact ⟨key, r, rfl, hentry, hwrapped⟩

theorem Sent.algOf? (h : Sent config recipients payload format options content bits t)
    (hformat : format = .compact ∨ 2 ≤ recipients.length) {key : Jwk} {r : Recipient}
    (hpair : (key, r) ∈ recipients.zip t.recipients) :
    t.algOf? r = some (key.alg?.getD config.keyEncryption) := by
  obtain ⟨enc, kid, _, hprotected⟩ := h.protectedHeader
  rcases hformat with hcompact | hmany
  · obtain ⟨lone, entry, rfl, hentry, hwrapped⟩ := h.lone hcompact
    obtain ⟨_, _, _, hextras⟩ := encryptFault?_none h.fault
    rw [hentry] at hpair
    obtain ⟨rfl, rfl⟩ : key = lone ∧ r = entry := by simpa using hpair
    have hunprotected : t.unprotected = {} := h.unprotected.trans (hextras hcompact).1
    have hheader : r.header = {} := hwrapped.header
    rw [Jwe.algOf?, hheader, hunprotected, hprotected]
    exact alg?_senderHeader _ enc kid options.protectedHeader
  · have hwrapped := List.forall₂_zip h.recipients hpair
    have hlone : (recipients.length == 1) = false := by
      rw [beq_eq_false_iff_ne]
      omega
    rw [Jwe.algOf?, hwrapped.header, hlone, alg?_recipientHeader]
    rfl

theorem Sent.roundTrip (h : Sent config recipients payload format options content bits t)
    (hformat : format = .compact ∨ 2 ≤ recipients.length)
    (hportable : options.protectedHeader.Portable Json.maxDepth)
    (hunprotected : options.unprotected.Portable unprotectedLevels) :
    ∃ text, t.serialize format = .ok text ∧ deserialize text = .ok t := by
  obtain ⟨enc, kid, _, hprotected⟩ := h.protectedHeader
  obtain ⟨_, _, hparties, hextras⟩ := encryptFault?_none h.fault
  have hcomplete := h.complete
  have hkept : t.protectedHeader.Kept := by
    rw [hprotected]
    exact Protected.decode_ofHeader (portable_senderHeader hportable _ enc kid)
  rcases hformat with rfl | hmany
  · obtain ⟨key, r, _, hentry, hwrapped⟩ := h.lone rfl
    obtain ⟨hempty, haad⟩ := hextras rfl
    have hheader : r.header = {} := hwrapped.header
    have hfits : t.fitsCompact r = true := by
      rw [fitsCompact, h.unprotected, hempty, hheader, h.aad, haad]
      rfl
    exact ⟨_, serialize_compact hcomplete hentry hfits,
      deserialize_compact hcomplete hentry hfits hkept⟩
  · have hgeneral : format = .general := by
      cases format with
      | general => rfl
      | compact =>
          have hsingle := hparties rfl
          omega
      | flat =>
          have hsingle := hparties rfl
          omega
    have hentries (r : Recipient) (hr : r ∈ t.recipients) : r.header.Portable recipientLevels := by
      obtain ⟨key, _, hwrapped⟩ := h.madeFor hr
      rw [hwrapped.header]
      exact portable_recipientHeader 123 _ _ key
    rw [hgeneral]
    rw [← h.unprotected] at hunprotected
    exact ⟨_, serialize_general hcomplete,
      deserialize_general hcomplete hkept hunprotected hentries⟩

end

end Jwe

end JoseTokens
