import JoseTokens.Proofs.Token.LoneRecipient

namespace JoseTokens.Jwe

section

variable {e : Engine (Except Error)} {t u : Jwe} {own : Jwk} {reference : Reference}
  {content payload : Bytes}

def cutAt (t : Jwe) (n : Nat) : Jwe :=
  { t with
    ciphertext := (t.ciphertext ++ t.tag).take n
    tag := (t.ciphertext ++ t.tag).drop n }

theorem joined_cutAt (t : Jwe) (n : Nat) :
    (t.cutAt n).ciphertext ++ (t.cutAt n).tag = t.ciphertext ++ t.tag :=
  List.take_append_drop n _

theorem check_cutAt {n : Nat} (hn : 0 < n) (h : t.check = .ok ()) : (t.cutAt n).check = .ok () := by
  obtain ⟨hciphertext, hiv, hrecipients, hkeys⟩ := (complete_iff t).mp (complete_of_check h)
  refine check_complete ((complete_iff _).mpr ⟨?_, hiv, hrecipients, hkeys⟩)
  intro hnil
  rcases List.take_eq_nil_iff.mp hnil with hzero | hempty
  · omega
  · exact hciphertext (List.append_eq_nil_iff.mp hempty).1

theorem unwrapFirst_sameAlgorithms (h : ∀ r, t.algOf? r = u.algOf? r) (own : Jwk)
    (order : List (Nat × Recipient)) :
    unwrapFirst e t own reference order = unwrapFirst e u own reference order := by
  induction order with
  | nil => rfl
  | cons first order ih =>
      obtain ⟨index, r⟩ := first
      rw [unwrapFirst, unwrapFirst, h r]
      simp only [ih]

theorem decrypt_cutAt {n : Nat} (hn : 0 < n) (h : decrypt e t reference = .ok payload) :
    decrypt e (t.cutAt n) reference = .ok payload := by
  obtain ⟨hcheck, enc, own, content, a, henc, hown, hfound, ha, hopened⟩ := decrypt_ok h
  have halgs (r : Recipient) : (t.cutAt n).algOf? r = t.algOf? r := rfl
  have hsame : unwrapFirst e (t.cutAt n) own reference ((t.cutAt n).trialOrder own.kid?) =
      unwrapFirst e t own reference (t.trialOrder own.kid?) :=
    unwrapFirst_sameAlgorithms halgs own _
  have henc' : (t.cutAt n).protectedHeader.header.enc? = some enc := henc
  rw [decrypt_eq (check_cutAt hn hcheck) henc' hown, hsame, hfound, joined_cutAt]
  change (Algorithm.ofId enc ⟨some t.iv, some (authenticatedData t.protectedHeader t.aad)⟩).bind
    (fun a => e.decrypt a (Jwk.oct content) (t.ciphertext ++ t.tag)) = .ok payload
  rw [ha]
  exact hopened

theorem decrypt_joined {config : Config} {store : KeyStore}
    (h : decrypt (Engine.software config store) t reference = .ok payload) :
    t.ciphertext.length + t.tag.length = payload.length + Gcm.tagSize ∧
      (∃ own content, store.latest reference = .ok own ∧
        unwrapFirst (Engine.software config store) t own reference (t.trialOrder own.kid?) =
          .ok content ∧
        t.ciphertext ++ t.tag =
          Gcm.encrypt content t.iv (authenticatedData t.protectedHeader t.aad) payload) ∧
      ∀ n, 0 < n → decrypt (Engine.software config store) (t.cutAt n) reference = .ok payload := by
  obtain ⟨own, content, _, hown, hfound, _, hsealed⟩ := decrypt_sealed h
  exact ⟨length_of_decrypt h, ⟨own, content, hown, hfound, hsealed⟩, fun _ hn => decrypt_cutAt hn h⟩

theorem decrypt_annotated (h : annotated "RSA-OAEP" = .ok t) :
    decrypt (Engine.software {} partyStore) t partyReference = .ok [4, 5, 6] := by
  obtain ⟨content, bits, hsent⟩ := encrypt_sent h
  exact hsent.decrypt_sole rfl unwrapsFor_narrowKey rfl

theorem decrypt_joined_annotated :
    ∃ t, annotated "RSA-OAEP" = .ok t ∧ t.ciphertext.length + t.tag.length = 19 ∧
      decrypt (Engine.software {} partyStore) (t.cutAt 1) partyReference = .ok [4, 5, 6] := by
  obtain ⟨t, ht⟩ := annotated_ok
  obtain ⟨hlength, _, hcut⟩ := decrypt_joined (decrypt_annotated ht)
  exact ⟨t, ht, hlength, hcut 1 (by decide)⟩

theorem not_decrypt_tagSize :
    ¬ ∀ (config : Config) (store : KeyStore) (t : Jwe) (reference : Reference) (payload : Bytes),
      decrypt (Engine.software config store) t reference = .ok payload →
      t.tag.length = Gcm.tagSize ∧ t.ciphertext.length = payload.length := by
  intro h
  obtain ⟨t, ht⟩ := annotated_ok
  have hread := decrypt_annotated ht
  have hlength : t.ciphertext.length + t.tag.length = 3 + 16 := length_of_decrypt hread
  have hsize : (t.cutAt 1).tag.length = 16 := (h _ _ _ _ _ (decrypt_cutAt (by decide) hread)).1
  rw [cutAt, List.length_drop, List.length_append] at hsize
  omega

def Resolves (t : Jwe) (r : Recipient) : Prop :=
  ∃ alg a, t.algOf? r = some alg ∧ Algorithm.ofId alg = .ok a

theorem Resolves.unwraps {r : Recipient} (h : Resolves t r) (e : Engine (Except Error)) (own : Jwk)
    (reference : Reference) : ∃ result, Unwraps e t own reference r result := by
  obtain ⟨alg, a, halg, ha⟩ := h
  exact ⟨_, alg, a, halg, ha, rfl⟩

theorem Unwraps.unique {r : Recipient} {x y : Except Error Bytes}
    (hx : Unwraps e t own reference r x) (hy : Unwraps e t own reference r y) : x = y := by
  obtain ⟨alg, a, halg, ha, rfl⟩ := hx
  obtain ⟨alg', a', halg', ha', rfl⟩ := hy
  cases halg.symm.trans halg'
  cases ha.symm.trans ha'
  rfl

theorem unwrapFirst_before {before : List (Nat × Recipient)} {found : Nat × Recipient}
    (hbefore : ∀ p ∈ before, Resolves t p.2)
    (honly : ∀ p ∈ before, ∀ other, Unwraps e t own reference p.2 (.ok other) → other = content)
    (hfound : Unwraps e t own reference found.2 (.ok content)) (after : List (Nat × Recipient)) :
    unwrapFirst e t own reference (before ++ found :: after) = .ok content := by
  induction before with
  | nil => exact unwrapFirst_ok hfound after
  | cons first before ih =>
      obtain ⟨hfirst, hrest⟩ := List.forall_mem_cons.mp hbefore
      obtain ⟨honlyFirst, honlyRest⟩ := List.forall_mem_cons.mp honly
      obtain ⟨result, hresult⟩ := hfirst.unwraps e own reference
      cases result with
      | ok other =>
          obtain rfl := honlyFirst other hresult
          exact unwrapFirst_ok hresult _
      | error error =>
          rw [List.cons_append, unwrapFirst_error hresult]
          exact ih hrest honlyRest

theorem decrypt_past_others {enc : String} {bits : Nat} {before after : List (Nat × Recipient)}
    {found : Nat × Recipient} (hcheck : t.check = .ok ())
    (henc : t.protectedHeader.header.enc? = some enc)
    (hbits : Algorithm.contentBits? enc = some bits) (hown : e.store.latest reference = .ok own)
    (horder : t.trialOrder own.kid? = before ++ found :: after)
    (hfound : Unwraps e t own reference found.2 (.ok content))
    (hbefore : ∀ p ∈ before, Resolves t p.2)
    (honly : ∀ p ∈ before, ∀ other, Unwraps e t own reference p.2 (.ok other) → other = content)
    (hopens : e.decrypt (.aesGcm bits t.iv (authenticatedData t.protectedHeader t.aad)
      Algorithm.tagBits) (Jwk.oct content) (t.ciphertext ++ t.tag) = .ok payload) :
    decrypt e t reference = .ok payload := by
  rw [decrypt_eq hcheck henc hown, horder, unwrapFirst_before hbefore honly hfound after]
  simp only [Except.bind, Algorithm.ofId, hbits]
  exact hopens

end

def strangerEntry (alg : String) : Recipient where
  header := Header.insertText {} "alg" alg
  encryptedKey := [1]

def amongStrangers (t : Jwe) (before after : List String) : Jwe :=
  { t with recipients := before.map strangerEntry ++ t.recipients ++ after.map strangerEntry }

theorem mem_amongStrangers {t : Jwe} {before after : List String} {r : Recipient} :
    r ∈ (t.amongStrangers before after).recipients ↔
      r ∈ t.recipients ∨ ∃ alg ∈ before ++ after, strangerEntry alg = r := by
  simp only [amongStrangers, List.mem_append, List.mem_map, or_and_right, exists_or]
  rw [or_assoc, or_left_comm]

theorem complete_amongStrangers {t : Jwe} (h : t.Complete) (before after : List String) :
    (t.amongStrangers before after).Complete := by
  obtain ⟨hciphertext, hiv, hrecipients, hkeys⟩ := (complete_iff t).mp h
  refine (complete_iff _).mpr ⟨hciphertext, hiv, ?_, fun r hr => ?_⟩
  · simp [amongStrangers, hrecipients]
  · rcases mem_amongStrangers.mp hr with hr | ⟨_, _, rfl⟩
    · exact hkeys r hr
    · exact List.cons_ne_nil _ _

theorem isValid_amongStrangers {t : Jwe} (h : t.isValid = true) (before after : List String) :
    (t.amongStrangers before after).isValid = true := by
  obtain ⟨hcomplete, halgs⟩ := isValid_iff.mp h
  refine isValid_iff.mpr ⟨complete_amongStrangers hcomplete before after, fun r hr => ?_⟩
  rcases mem_amongStrangers.mp hr with hr | ⟨_, _, rfl⟩
  · exact halgs r hr
  · rfl

theorem isNamed_several {t : Jwe} {r : Recipient} (hkid : r.header.kid? = none)
    (hmany : t.recipients.length ≠ 1) (kid : Option String) : t.isNamed kid r = false := by
  rw [isNamed, kidOf?, hkid, if_neg hmany]
  cases kid <;> rfl

theorem trialOrder_unnamed {t : Jwe} {kid : Option String}
    (h : ∀ r ∈ t.recipients, t.isNamed kid r = false) :
    t.trialOrder kid = t.recipients.zipIdx.map fun (r, i) => (i, r) := by
  have hall : ∀ p ∈ t.recipients.zipIdx.map fun (r, i) => (i, r), t.isNamed kid p.2 = false := by
    intro p hp
    obtain ⟨⟨r, i⟩, hmem, rfl⟩ := List.mem_map.mp hp
    exact h r (List.fst_mem_of_mem_zipIdx hmem)
  rw [trialOrder, List.partition_eq_filter_filter]
  simp only
  rw [List.filter_eq_nil_iff.mpr fun p hp => by simp [hall p hp],
    List.filter_eq_self.mpr fun p hp => by simp [hall p hp], List.nil_append]

theorem trialOrder_amongStrangers {t : Jwe} {r : Recipient} (hr : t.recipients = [r])
    (hheader : r.header = {}) {before after : List String} (hothers : before ++ after ≠ [])
    (kid : Option String) :
    (t.amongStrangers before after).trialOrder kid =
      (before.map strangerEntry ++ r :: after.map strangerEntry).zipIdx.map
        fun (r, i) => (i, r) := by
  have hentries : (t.amongStrangers before after).recipients =
      before.map strangerEntry ++ r :: after.map strangerEntry := by
    simp [amongStrangers, hr]
  have hmany : (t.amongStrangers before after).recipients.length ≠ 1 := by
    have hpos := List.length_pos_iff.mpr hothers
    rw [List.length_append] at hpos
    simp only [hentries, List.length_append, List.length_map, List.length_cons]
    omega
  rw [trialOrder_unnamed, hentries]
  intro entry hentry
  refine isNamed_several ?_ hmany kid
  rcases mem_amongStrangers.mp hentry with hentry | ⟨_, _, rfl⟩
  · obtain rfl := List.mem_singleton.mp (hr ▸ hentry)
    rw [hheader]
    rfl
  · rfl

theorem not_unwraps_stranger {e : Engine (Except Error)} {t : Jwe} {own : Jwk}
    {reference : Reference} {result : Except Error Bytes} :
    ¬ Unwraps e t own reference (strangerEntry "A128KW") result := by
  rintro ⟨alg, a, halg, ha, _⟩
  cases halg
  cases ha

theorem unwraps_onlyOwn {e : Engine (Except Error)} {t : Jwe} {own : Jwk} {reference : Reference}
    {r : Recipient} {content : Bytes} (hr : t.recipients = [r])
    (h : Unwraps e t own reference r (.ok content)) :
    ∀ entry ∈ (t.amongStrangers ["A128KW"] []).recipients, ∀ other,
      Unwraps e (t.amongStrangers ["A128KW"] []) own reference entry (.ok other) →
        other = content := by
  intro entry hentry other hother
  rcases mem_amongStrangers.mp hentry with hentry | ⟨alg, halg, rfl⟩
  · obtain rfl := List.mem_singleton.mp (hr ▸ hentry)
    exact Except.ok.inj (hother.unique h)
  · obtain rfl := List.mem_singleton.mp halg
    exact absurd hother not_unwraps_stranger

theorem decrypt_past_others_strangers :
    ∃ t, annotated "RSA-OAEP" = .ok t ∧
      decrypt (Engine.software {} partyStore) (t.amongStrangers ["ES256K"] ["A128KW"])
        partyReference = .ok [4, 5, 6] := by
  obtain ⟨t, ht⟩ := annotated_ok
  obtain ⟨content, bits, hsent⟩ := encrypt_sent ht
  obtain ⟨enc, hbits, henc⟩ := hsent.enc
  obtain ⟨r, hr, hheader, hunwraps⟩ := hsent.unwraps_sole rfl unwrapsFor_narrowKey
  have hcheck := check_complete (complete_amongStrangers hsent.complete ["ES256K"] ["A128KW"])
  have horder : (t.amongStrangers ["ES256K"] ["A128KW"]).trialOrder (some "party") =
      [(0, strangerEntry "ES256K")] ++ (1, r) :: [(2, strangerEntry "A128KW")] := by
    rw [trialOrder_amongStrangers hr hheader (by decide)]
    rfl
  have hstranger : Unwraps (Engine.software {} partyStore)
      (t.amongStrangers ["ES256K"] ["A128KW"]) (narrowKey (some narrowSecret)) partyReference
      (strangerEntry "ES256K") (.error (.invalidKey (.otherType "ECDSA" .ec .rsa))) :=
    ⟨"ES256K", .ecdsa .secp256k1 .sha256, rfl, rfl, Engine.decryptKept_software rfl _ _ _⟩
  have hbefore : ∀ p ∈ [(0, strangerEntry "ES256K")],
      Resolves (t.amongStrangers ["ES256K"] ["A128KW"]) p.2 := by
    intro p hp
    obtain rfl := List.mem_singleton.mp hp
    exact ⟨"ES256K", .ecdsa .secp256k1 .sha256, rfl, rfl⟩
  have honly : ∀ p ∈ [(0, strangerEntry "ES256K")], ∀ other,
      Unwraps (Engine.software {} partyStore) (t.amongStrangers ["ES256K"] ["A128KW"])
        (narrowKey (some narrowSecret)) partyReference p.2 (.ok other) → other = content := by
    intro p hp other hother
    obtain rfl := List.mem_singleton.mp hp
    cases hstranger.unique hother
  exact ⟨t, ht, decrypt_past_others hcheck henc hbits rfl horder hunwraps hbefore honly hsent.opens⟩

theorem not_decrypt_past_unknown :
    ¬ ∀ (e : Engine (Except Error)) (t : Jwe) (reference : Reference) (enc : String) (bits : Nat)
      (own : Jwk) (content payload : Bytes),
      t.isValid = true → t.protectedHeader.header.enc? = some enc →
      Algorithm.contentBits? enc = some bits → e.store.latest reference = .ok own →
      (∃ r ∈ t.recipients, Unwraps e t own reference r (.ok content)) →
      (∀ r ∈ t.recipients, ∀ other,
        Unwraps e t own reference r (.ok other) → other = content) →
      e.decrypt (.aesGcm bits t.iv (authenticatedData t.protectedHeader t.aad) Algorithm.tagBits)
        (Jwk.oct content) (t.ciphertext ++ t.tag) = .ok payload →
      decrypt e t reference = .ok payload := by
  intro h
  obtain ⟨t, ht⟩ := annotated_ok
  obtain ⟨content, bits, hsent⟩ := encrypt_sent ht
  obtain ⟨enc, hbits, henc⟩ := hsent.enc
  obtain ⟨r, hr, hheader, hunwraps⟩ := hsent.unwraps_sole rfl unwrapsFor_narrowKey
  have hvalid : t.isValid = true := by
    obtain ⟨alg, _, halg, _⟩ := id hunwraps
    refine isValid_iff.mpr ⟨hsent.complete, fun entry hentry => ?_⟩
    obtain rfl := List.mem_singleton.mp (hr ▸ hentry)
    exact Option.isSome_of_mem halg
  have hread := h (Engine.software {} partyStore) (t.amongStrangers ["A128KW"] []) partyReference
    enc bits (narrowKey (some narrowSecret)) content [4, 5, 6]
    (isValid_amongStrangers hvalid _ _) henc hbits rfl
    ⟨r, mem_amongStrangers.mpr (.inl (hr ▸ List.mem_cons_self)), hunwraps⟩
    (unwraps_onlyOwn hr hunwraps) hsent.opens
  have hfailed : decrypt (Engine.software {} partyStore) (t.amongStrangers ["A128KW"] [])
      partyReference = .error (.unsupportedAlgorithm "A128KW") := by
    refine decrypt_error (check_complete (complete_amongStrangers hsent.complete _ _)) henc rfl ?_
    rw [trialOrder_amongStrangers hr hheader (by decide)]
    exact unwrapFirst_unknown rfl rfl _
  rw [hread] at hfailed
  cases hfailed

end JoseTokens.Jwe
