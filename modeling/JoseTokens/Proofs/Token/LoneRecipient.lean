import JoseTokens.Proofs.Token.Recipients

namespace JoseTokens.Jwe

section

variable {config config' : Config} {store' : KeyStore} {payload content : Bytes} {format : Format}
  {options : EncryptOptions} {bits : Nat} {t : Jwe} {own key : Jwk} {reference : Reference}
  {r : Recipient}

theorem trialOrder_sole (h : t.recipients = [r]) (kid : Option String) :
    t.trialOrder kid = [(0, r)] := by
  rw [trialOrder, h]
  cases hnamed : t.isNamed kid r <;> simp [hnamed]

theorem Sent.algOf?_sole (h : Sent config [key] payload format options content bits t)
    (hr : t.recipients = [r]) :
    t.algOf? r =
      some (options.unprotected.alg?.getD (key.alg?.getD config.keyEncryption)) := by
  obtain ⟨entry, hentry, hwrapped⟩ := h.sole
  obtain rfl : entry = r := List.singleton_inj.mp (hentry.symm.trans hr)
  obtain ⟨enc, kid, _, hprotected⟩ := h.protectedHeader
  have hheader : entry.header = {} := hwrapped.header
  have halg : t.protectedHeader.header.alg? = some (key.alg?.getD config.keyEncryption) := by
    rw [hprotected]
    exact alg?_senderHeader _ enc kid options.protectedHeader
  rw [Jwe.algOf?, hheader, h.unprotected, halg]
  cases options.unprotected.alg? <;> rfl

theorem Sent.unwraps_sole (h : Sent config [key] payload format options content bits t)
    (halg : options.unprotected.alg?.getD (key.alg?.getD config.keyEncryption) =
      key.alg?.getD config.keyEncryption)
    (hopens : Algorithm.UnwrapsFor own key) :
    ∃ r, t.recipients = [r] ∧ r.header = {} ∧
      Unwraps (Engine.software config' store') t own reference r (.ok content) := by
  obtain ⟨r, hr, hwrapped⟩ := h.sole
  obtain ⟨hash, entropy, hid, hwraps⟩ := hwrapped.wraps
  have hname := h.algOf?_sole hr
  rw [halg] at hname
  exact ⟨r, hr, hwrapped.header,
    unwraps_of_decrypt hname hid (hopens hash entropy content r.encryptedKey hwraps)⟩

theorem Sent.decrypt_sole (h : Sent config [key] payload format options content bits t)
    (halg : options.unprotected.alg?.getD (key.alg?.getD config.keyEncryption) =
      key.alg?.getD config.keyEncryption)
    (hopens : Algorithm.UnwrapsFor own key) (hown : store'.latest reference = .ok own) :
    decrypt (Engine.software config' store') t reference = .ok payload := by
  obtain ⟨r, hr, _, hunwraps⟩ := h.unwraps_sole halg hopens
  refine decrypt_of_unwrapFirst h hown ?_
  rw [trialOrder_sole hr]
  exact unwrapFirst_ok hunwraps []

theorem Sent.decrypt_hidden (h : Sent config [key] payload format options content bits t)
    {name : String} {error : Error} (hname : options.unprotected.alg? = some name)
    (hunknown : Algorithm.ofId name = .error error) (hown : store'.latest reference = .ok own) :
    decrypt (Engine.software config' store') t reference = .error error := by
  obtain ⟨r, hr, _⟩ := h.sole
  obtain ⟨enc, _, henc⟩ := h.enc
  have halg := h.algOf?_sole hr
  rw [hname] at halg
  refine decrypt_error (check_complete h.complete) henc hown ?_
  rw [trialOrder_sole hr]
  exact unwrapFirst_unknown halg hunknown []

theorem lone_recipient_decrypts {store : KeyStore} {entropy : Entropy}
    (hencrypt : encrypt (Engine.software config store) [key] payload format options entropy =
      .ok t)
    (halg : ∀ name, options.unprotected.alg? = some name →
      name = key.alg?.getD config.keyEncryption)
    (hopens : Algorithm.UnwrapsFor own key) (hown : store'.latest reference = .ok own) :
    decrypt (Engine.software config' store') t reference = .ok payload := by
  obtain ⟨content, bits, hsent⟩ := encrypt_sent hencrypt
  refine hsent.decrypt_sole ?_ hopens hown
  cases hname : options.unprotected.alg? with
  | none => rfl
  | some name => exact halg name hname

end

def partyReference : Reference where
  name := "party"
  storage := .secret

def partyStore : KeyStore :=
  .memory ⟨[((.secret, "party"), ⟨narrowKey (some narrowSecret), []⟩)]⟩

theorem unwrapsFor_narrowKey :
    Algorithm.UnwrapsFor (narrowKey (some narrowSecret)) (narrowKey none) :=
  Algorithm.unwrapsFor_of_sound rfl privateNumbers_narrowSecret sound_narrowPair rfl

def annotated (alg : String) : Except Error Jwe :=
  encrypt (Engine.software { keyEncryption := "RSA-OAEP" } (.memory {})) [narrowKey none] [4, 5, 6]
    .flat { enc := some "A128GCM", unprotected := Header.insertText {} "alg" alg } ⟨UInt8.ofNat⟩

theorem annotated_ok : ∃ t, annotated "RSA-OAEP" = .ok t :=
  exists_of_isOk (by decide +kernel)

theorem lone_recipient_decrypts_annotated :
    ∃ t, annotated "RSA-OAEP" = .ok t ∧
      decrypt (Engine.software {} partyStore) t partyReference = .ok [4, 5, 6] := by
  obtain ⟨t, ht⟩ := annotated_ok
  have halg : ∀ name, (Header.insertText {} "alg" "RSA-OAEP").alg? = some name →
      name = "RSA-OAEP" := by
    intro name hname
    exact (Option.some.inj hname).symm
  exact ⟨t, ht, lone_recipient_decrypts ht halg unwrapsFor_narrowKey rfl⟩

theorem not_lone_recipient_decrypts :
    ¬ ∀ (config config' : Config) (store store' : KeyStore) (key own : Jwk)
      (reference : Reference) (payload : Bytes) (format : Format) (options : EncryptOptions)
      (entropy : Entropy) (t : Jwe),
      (format = .flat ∨ format = .general) →
      encrypt (Engine.software config store) [key] payload format options entropy = .ok t →
      Algorithm.UnwrapsFor own key → store'.latest reference = .ok own →
      decrypt (Engine.software config' store') t reference = .ok payload := by
  intro h
  have hok : (annotated "dir").isOk = true := by decide +kernel
  obtain ⟨t, ht⟩ := exists_of_isOk hok
  have hread := h _ {} _ partyStore _ _ partyReference _ _ _ _ t (.inl rfl) ht
    unwrapsFor_narrowKey rfl
  obtain ⟨content, bits, hsent⟩ := encrypt_sent ht
  have hfailed : decrypt (Engine.software {} partyStore) t partyReference =
      .error (.unsupportedAlgorithm "dir") :=
    hsent.decrypt_hidden rfl rfl rfl
  rw [hread] at hfailed
  cases hfailed

end JoseTokens.Jwe
