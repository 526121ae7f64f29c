import JoseTokens.Proofs.Token.Sending

namespace JoseTokens

namespace Algorithm

theorem ofId_aesGcm {id : String} {iv aad iv' aad' : Bytes} {bits tagLength : Nat}
    (h : ofId id ⟨some iv, some aad⟩ = .ok (.aesGcm bits iv' aad' tagLength)) :
    contentBits? id = some bits ∧ iv' = iv ∧ aad' = aad ∧ tagLength = tagBits := by
  cases hbits : contentBits? id with
  | some size =>
      rw [ofId, hbits] at h
      cases h
      exact ⟨rfl, rfl, rfl, rfl⟩
  | none =>
      -- Without a length for content keys the inputs are not looked at.
      have hplain : ofId id = .ok (.aesGcm bits iv' aad' tagLength) := by
        rw [ofId, hbits] at h ⊢
        exact h
      exact absurd hplain ofId_ne_aesGcm

theorem decrypt_oct {a : Algorithm} {content sealed plaintext : Bytes}
    (h : a.decrypt (Jwk.oct content) sealed = .ok plaintext) :
    ∃ bits iv aad tagLength, a = .aesGcm bits iv aad tagLength ∧
      Workable bits iv tagLength content ∧ sealed = Gcm.encrypt content iv aad plaintext := by
  cases a with
  | aesGcm bits iv aad tagLength =>
      exact ⟨bits, iv, aad, tagLength, rfl, (decrypt_aesGcm_eq_ok_iff rfl).mp h⟩
  | rsaOaep hash => cases h
  | ecdsa curve hash => cases h
  | eddsa curve => cases h
  | rsaSignature hash => cases h
  | hmac hash => cases h
  | digest hash => cases h

end Algorithm

namespace Jwe

section

variable {e : Engine (Except Error)} {t : Jwe} {reference : Reference} {payload : Bytes}

theorem complete_of_check (h : t.check = .ok ()) : t.Complete := by
  rw [check] at h
  split at h
  · cases h
  next hcomplete => exact hcomplete

theorem isValid_iff :
    t.isValid = true ↔ t.Complete ∧ ∀ r ∈ t.recipients, (t.algOf? r).isSome := by
  simp only [isValid, Complete, Bool.and_eq_true, Option.isNone_iff_eq_none, List.all_eq_true]

theorem decrypt_eq {enc : String} {own : Jwk} (hcheck : t.check = .ok ())
    (henc : t.protectedHeader.header.enc? = some enc)
    (hown : e.store.latest reference = .ok own) :
    decrypt e t reference =
      (unwrapFirst e t own reference (t.trialOrder own.kid?)).bind fun content =>
        (Algorithm.ofId enc ⟨some t.iv, some (authenticatedData t.protectedHeader t.aad)⟩).bind
          fun a => e.decrypt a (Jwk.oct content) (t.ciphertext ++ t.tag) := by
  rw [decrypt, hcheck, henc, hown]
  simp only [liftResult_except]
  rfl

theorem decrypt_error {enc : String} {own : Jwk} {error : Error} (hcheck : t.check = .ok ())
    (henc : t.protectedHeader.header.enc? = some enc)
    (hown : e.store.latest reference = .ok own)
    (h : unwrapFirst e t own reference (t.trialOrder own.kid?) = .error error) :
    decrypt e t reference = .error error := by
  rw [decrypt_eq hcheck henc hown, h]
  rfl

theorem decrypt_ok (h : decrypt e t reference = .ok payload) :
    t.check = .ok () ∧ ∃ enc own content a, t.protectedHeader.header.enc? = some enc ∧
      e.store.latest reference = .ok own ∧
      unwrapFirst e t own reference (t.trialOrder own.kid?) = .ok content ∧
      Algorithm.ofId enc ⟨some t.iv, some (authenticatedData t.protectedHeader t.aad)⟩ = .ok a ∧
      e.decrypt a (Jwk.oct content) (t.ciphertext ++ t.tag) = .ok payload := by
  rw [decrypt] at h
  obtain ⟨_, hcheck, h⟩ := bind_eq_ok h
  rw [liftResult_except] at hcheck
  cases henc : t.protectedHeader.header.enc? with
  | none =>
      rw [henc] at h
      cases h
  | some enc =>
      rw [henc] at h
      obtain ⟨own, hown, h⟩ := bind_eq_ok h
      obtain ⟨content, hfound, h⟩ := bind_eq_ok h
      obtain ⟨a, ha, h⟩ := bind_eq_ok h
      rw [liftResult_except] at hown ha
      exact ⟨hcheck, enc, own, content, a, rfl, hown, hfound, ha, h⟩

theorem decrypt_sealed {config : Config} {store : KeyStore}
    (h : decrypt (Engine.software config store) t reference = .ok payload) :
    ∃ own content bits, store.latest reference = .ok own ∧
      unwrapFirst (Engine.software config store) t own reference (t.trialOrder own.kid?) =
        .ok content ∧
      Algorithm.Workable bits t.iv Algorithm.tagBits content ∧
      t.ciphertext ++ t.tag =
        Gcm.encrypt content t.iv (authenticatedData t.protectedHeader t.aad) payload := by
  obtain ⟨_, enc, own, content, a, _, hown, hfound, ha, hopened⟩ := decrypt_ok h
  rw [Engine.decrypt_software (Algorithm.id?_ofId ha)] at hopened
  obtain ⟨_, _, hopened⟩ := bind_eq_ok hopened
  obtain ⟨bits, iv, aad, tagLength, rfl, hworkable, hsealed⟩ := Algorithm.decrypt_oct hopened
  obtain ⟨_, rfl, rfl, rfl⟩ := Algorithm.ofId_aesGcm ha
  exact ⟨own, content, bits, hown, hfound, hworkable, hsealed⟩

theorem length_of_decrypt {config : Config} {store : KeyStore}
    (h : decrypt (Engine.software config store) t reference = .ok payload) :
    t.ciphertext.length + t.tag.length = payload.length + Gcm.tagSize := by
  obtain ⟨_, content, bits, _, _, hworkable, hsealed⟩ := decrypt_sealed h
  rw [← List.length_append, hsealed]
  exact (hworkable.split _ payload).1

end

end Jwe

end JoseTokens
