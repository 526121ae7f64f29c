import JoseTokens.Crypto.Encryption
import JoseTokens.Proofs.Cipher.Gcm

namespace JoseTokens.Algorithm

structure Workable (bits : Nat) (iv : Bytes) (tagLength : Nat) (k : Bytes) : Prop where
  tag : tagLength = 128
  vector : iv.length = 12
  strength : bits = 128 ∨ bits = 192 ∨ bits = 256
  key : k.length * 8 = bits

inductive Unworkable (bits : Nat) (iv : Bytes) (tagLength : Nat) (k : Bytes) : Error → Prop
  | tag : tagLength ≠ 128 →
      Unworkable bits iv tagLength k (.unsupportedAlgorithm s!"AES-GCM with {tagLength}-bit tag")
  | vector : tagLength = 128 → iv.length ≠ 12 →
      Unworkable bits iv tagLength k (.invalidArgument (.ivLength iv.length))
  | strength : tagLength = 128 → iv.length = 12 → ¬ (bits = 128 ∨ bits = 192 ∨ bits = 256) →
      Unworkable bits iv tagLength k (.unsupportedAlgorithm s!"AES-GCM-{bits}")
  | key : tagLength = 128 → iv.length = 12 → (bits = 128 ∨ bits = 192 ∨ bits = 256) →
      k.length * 8 ≠ bits → Unworkable bits iv tagLength k (.invalidKey .cipherKey)

section

variable {bits tagLength : Nat} {iv k : Bytes}

theorem workable_or_unworkable (bits : Nat) (iv : Bytes) (tagLength : Nat) (k : Bytes) :
    Workable bits iv tagLength k ∨ ∃ e, Unworkable bits iv tagLength k e := by
  by_cases htag : tagLength = 128
  · by_cases hvector : iv.length = 12
    · by_cases hstrength : bits = 128 ∨ bits = 192 ∨ bits = 256
      · by_cases hkey : k.length * 8 = bits
        · exact .inl ⟨htag, hvector, hstrength, hkey⟩
        · exact .inr ⟨_, .key htag hvector hstrength hkey⟩
      · exact .inr ⟨_, .strength htag hvector hstrength⟩
    · exact .inr ⟨_, .vector htag hvector⟩
  · exact .inr ⟨_, .tag htag⟩

theorem Workable.cipherFault? (h : Workable bits iv tagLength k) :
    cipherFault? bits iv tagLength k = none := by
  have hstrength : ¬ (bits ≠ 128 ∧ bits ≠ 192 ∧ bits ≠ 256) := by
    have hknown := h.strength
    omega
  exact (if_neg (not_not.mpr h.tag)).trans ((if_neg (not_not.mpr h.vector)).trans
    ((if_neg hstrength).trans (if_neg (not_not.mpr h.key))))

theorem Unworkable.cipherFault? {e : Error} (h : Unworkable bits iv tagLength k e) :
    cipherFault? bits iv tagLength k = some e := by
  cases h with
  | tag htag => exact if_pos htag
  | vector htag hvector => exact (if_neg (not_not.mpr htag)).trans (if_pos hvector)
  | strength htag hvector hstrength =>
      have hunknown : bits ≠ 128 ∧ bits ≠ 192 ∧ bits ≠ 256 := by omega
      exact (if_neg (not_not.mpr htag)).trans ((if_neg (not_not.mpr hvector)).trans
        (if_pos hunknown))
  | key htag hvector hstrength hkey =>
      have hknown : ¬ (bits ≠ 128 ∧ bits ≠ 192 ∧ bits ≠ 256) := by omega
      exact (if_neg (not_not.mpr htag)).trans ((if_neg (not_not.mpr hvector)).trans
        ((if_neg hknown).trans (if_pos hkey)))

theorem cipherFault?_eq_none_iff :
    Algorithm.cipherFault? bits iv tagLength k = none ↔ Workable bits iv tagLength k := by
  refine ⟨fun hfault => ?_, Workable.cipherFault?⟩
  rcases workable_or_unworkable bits iv tagLength k with h | ⟨e, h⟩
  · exact h
  · cases hfault.symm.trans h.cipherFault?

theorem Workable.words (h : Workable bits iv tagLength k) :
    ∃ count, 0 < count ∧ k.length = 4 * count := by
  have hstrength := h.strength
  have hkey := h.key
  exact ⟨k.length / 4, by omega, by omega⟩

end

section

variable {bits tagLength : Nat} {iv aad k : Bytes} {key : Jwk}

theorem Workable.not_unworkable {e : Error} (h : Workable bits iv tagLength k) :
    ¬ Unworkable bits iv tagLength k e := by
  intro hnot
  have hfault := hnot.cipherFault?
  rw [h.cipherFault?] at hfault
  cases hfault

theorem encrypt_aesGcm_eq_ok_iff (hkey : key.material = .oct k) {entropy : Entropy}
    {plaintext sealed : Bytes} :
    (aesGcm bits iv aad tagLength).encrypt key entropy plaintext = .ok sealed ↔
      Workable bits iv tagLength k ∧ sealed = Gcm.encrypt k iv aad plaintext := by
  rcases workable_or_unworkable bits iv tagLength k with h | ⟨e, h⟩
  · simp only [encrypt, hkey, h.cipherFault?, Except.ok.injEq, h, true_and, eq_comm]
  · have hnot : ¬ Workable bits iv tagLength k := fun hworkable => hworkable.not_unworkable h
    simp only [encrypt, hkey, h.cipherFault?, reduceCtorEq, hnot, false_and]

theorem encrypt_aesGcm_eq_error_iff (hkey : key.material = .oct k) {entropy : Entropy}
    {plaintext : Bytes} {e : Error} :
    (aesGcm bits iv aad tagLength).encrypt key entropy plaintext = .error e ↔
      Unworkable bits iv tagLength k e := by
  rcases workable_or_unworkable bits iv tagLength k with h | ⟨first, h⟩
  · simp only [encrypt, hkey, h.cipherFault?, reduceCtorEq, h.not_unworkable]
  · simp only [encrypt, hkey, h.cipherFault?, Except.error.injEq]
    refine ⟨fun heq => heq ▸ h, fun h' => ?_⟩
    exact Option.some.inj (h.cipherFault?.symm.trans h'.cipherFault?)

theorem decrypt_aesGcm_unworkable {e : Error} (hkey : key.material = .oct k)
    (h : Unworkable bits iv tagLength k e) (sealed : Bytes) :
    (aesGcm bits iv aad tagLength).decrypt key sealed = .error e := by
  simp only [decrypt, hkey, h.cipherFault?]

theorem decrypt_aesGcm_workable (hkey : key.material = .oct k)
    (h : Workable bits iv tagLength k) (sealed : Bytes) :
    (aesGcm bits iv aad tagLength).decrypt key sealed =
      (Gcm.decrypt? k iv aad sealed).elim (.error (.cryptoFailure .authentication)) .ok := by
  simp only [decrypt, hkey, h.cipherFault?]
  cases Gcm.decrypt? k iv aad sealed <;> rfl

theorem Workable.opens_iff (h : Workable bits iv tagLength k) {sealed plaintext : Bytes} :
    Gcm.decrypt? k iv aad sealed = some plaintext ↔ sealed = Gcm.encrypt k iv aad plaintext := by
  obtain ⟨count, hcount, hwords⟩ := h.words
  refine ⟨Gcm.eq_encrypt_of_decrypt? hwords hcount h.vector, ?_⟩
  rintro rfl
  exact Gcm.decrypt?_encrypt hwords hcount h.vector aad plaintext

theorem decrypt_aesGcm_eq_ok_iff (hkey : key.material = .oct k) {plaintext sealed : Bytes} :
    (aesGcm bits iv aad tagLength).decrypt key sealed = .ok plaintext ↔
      Workable bits iv tagLength k ∧ sealed = Gcm.encrypt k iv aad plaintext := by
  rcases workable_or_unworkable bits iv tagLength k with h | ⟨e, h⟩
  · rw [decrypt_aesGcm_workable hkey h, ← h.opens_iff]
    cases Gcm.decrypt? k iv aad sealed with
    | none => simp
    | some opened => simp [h]
  · have hnot : ¬ Workable bits iv tagLength k := fun hworkable => hworkable.not_unworkable h
    simp [decrypt_aesGcm_unworkable hkey h, hnot]

theorem decrypt_aesGcm_tried_iff (hkey : key.material = .oct k) {sealed : Bytes} :
    ((∃ plaintext, (aesGcm bits iv aad tagLength).decrypt key sealed = .ok plaintext) ∨
      (aesGcm bits iv aad tagLength).decrypt key sealed =
        .error (.cryptoFailure .authentication)) ↔ Workable bits iv tagLength k := by
  rcases workable_or_unworkable bits iv tagLength k with h | ⟨e, h⟩
  · rw [decrypt_aesGcm_workable hkey h]
    refine iff_of_true ?_ h
    cases Gcm.decrypt? k iv aad sealed with
    | none => exact .inr rfl
    | some plaintext => exact .inl ⟨plaintext, rfl⟩
  · rw [decrypt_aesGcm_unworkable hkey h]
    refine iff_of_false ?_ fun hworkable => hworkable.not_unworkable h
    cases h <;> simp

theorem decrypt_aesGcm_refuses_iff (hkey : key.material = .oct k) {e : Error} :
    (∀ sealed, (aesGcm bits iv aad tagLength).decrypt key sealed = .error e) ↔
      Unworkable bits iv tagLength k e := by
  refine ⟨fun hall => ?_, fun h sealed => decrypt_aesGcm_unworkable hkey h sealed⟩
  rcases workable_or_unworkable bits iv tagLength k with h | ⟨first, h⟩
  · -- What the cipher has sealed it opens, and does not refuse.
    have hopened := hall (Gcm.encrypt k iv aad [])
    rw [(decrypt_aesGcm_eq_ok_iff hkey).mpr ⟨h, rfl⟩] at hopened
    cases hopened
  · have hrefused := hall []
    rw [decrypt_aesGcm_unworkable hkey h] at hrefused
    cases hrefused
    exact h

theorem Workable.split (h : Workable bits iv tagLength k) (aad plaintext : Bytes) :
    (Gcm.encrypt k iv aad plaintext).length = plaintext.length + 16 ∧
      (Gcm.encrypt k iv aad plaintext).drop plaintext.length =
        Gcm.tag (Aes.roundKeys k) iv aad
          ((Gcm.encrypt k iv aad plaintext).take plaintext.length) := by
  obtain ⟨count, hcount, hwords⟩ := h.words
  have hmask := Gcm.length_mask hwords hcount h.vector plaintext
  refine ⟨Gcm.length_encrypt hwords hcount h.vector aad plaintext, ?_⟩
  simp only [Gcm.encrypt, ← hmask, List.drop_left, List.take_left]

structure SealsAndOpens (bits : Nat) (iv aad : Bytes) (tagLength : Nat) (k : Bytes) (key : Jwk) :
    Prop where
  seals_iff : ∀ entropy plaintext,
    (∃ sealed, (aesGcm bits iv aad tagLength).encrypt key entropy plaintext = .ok sealed) ↔
      Workable bits iv tagLength k
  tries_iff : ∀ sealed,
    ((∃ plaintext, (aesGcm bits iv aad tagLength).decrypt key sealed = .ok plaintext) ∨
      (aesGcm bits iv aad tagLength).decrypt key sealed =
        .error (.cryptoFailure .authentication)) ↔ Workable bits iv tagLength k
  split : ∀ entropy plaintext sealed,
    (aesGcm bits iv aad tagLength).encrypt key entropy plaintext = .ok sealed →
      sealed.length = plaintext.length + 16 ∧ sealed.drop plaintext.length =
        Gcm.tag (Aes.roundKeys k) iv aad (sealed.take plaintext.length)
  opens_iff : ∀ entropy plaintext sealed,
    (aesGcm bits iv aad tagLength).decrypt key sealed = .ok plaintext ↔
      (aesGcm bits iv aad tagLength).encrypt key entropy plaintext = .ok sealed
  refuses_iff : ∀ entropy plaintext e,
    (aesGcm bits iv aad tagLength).encrypt key entropy plaintext = .error e ↔
      ∀ sealed, (aesGcm bits iv aad tagLength).decrypt key sealed = .error e
  reason_iff : ∀ entropy plaintext e,
    (aesGcm bits iv aad tagLength).encrypt key entropy plaintext = .error e ↔
      Unworkable bits iv tagLength k e

theorem aesGcm_sealsAndOpens (bits : Nat) (iv aad : Bytes) (tagLength : Nat)
    (hkey : key.material = .oct k) : SealsAndOpens bits iv aad tagLength k key where
  seals_iff := fun entropy plaintext => by
    simp only [encrypt_aesGcm_eq_ok_iff hkey, exists_and_left, exists_eq, and_true]
  tries_iff := fun sealed => decrypt_aesGcm_tried_iff hkey
  split := fun entropy plaintext sealed hsealed => by
    obtain ⟨h, rfl⟩ := (encrypt_aesGcm_eq_ok_iff hkey).mp hsealed
    exact h.split aad plaintext
  opens_iff := fun entropy plaintext sealed => by
    rw [decrypt_aesGcm_eq_ok_iff hkey, encrypt_aesGcm_eq_ok_iff hkey]
  refuses_iff := fun entropy plaintext e => by
    rw [encrypt_aesGcm_eq_error_iff hkey, decrypt_aesGcm_refuses_iff hkey]
  reason_iff := fun entropy plaintext e => encrypt_aesGcm_eq_error_iff hkey

end

theorem aesGcm_sealsAndOpens_partial :
    (∃ sealed, (aesGcm 192 (List.replicate 12 3) [1] 128).encrypt
        (Jwk.oct (List.replicate 24 42)) ⟨fun _ => 0⟩ (List.replicate 17 5) = .ok sealed ∧
      sealed.length = 33 ∧ (aesGcm 192 (List.replicate 12 3) [1] 128).decrypt
        (Jwk.oct (List.replicate 24 42)) sealed = .ok (List.replicate 17 5)) ∧
    (aesGcm 192 (List.replicate 8 3) [1] 128).encrypt
        (Jwk.oct (List.replicate 24 42)) ⟨fun _ => 0⟩ (List.replicate 17 5) =
      .error (.invalidArgument (.ivLength 8)) ∧
    ∀ sealed, (aesGcm 192 (List.replicate 8 3) [1] 128).decrypt
      (Jwk.oct (List.replicate 24 42)) sealed = .error (.invalidArgument (.ivLength 8)) := by
  have hkey : (Jwk.oct (List.replicate 24 42)).material = .oct (List.replicate 24 42) := rfl
  have hfull := aesGcm_sealsAndOpens 192 (List.replicate 12 3) [1] 128 hkey
  have hshort := aesGcm_sealsAndOpens 192 (List.replicate 8 3) [1] 128 hkey
  have hworkable : Workable 192 (List.replicate 12 3) 128 (List.replicate 24 42) :=
    ⟨rfl, rfl, by decide, rfl⟩
  have hrefused := (hshort.reason_iff ⟨fun _ => 0⟩ (List.replicate 17 5) _).mpr
    (.vector rfl (by decide))
  obtain ⟨sealed, hsealed⟩ :=
    (hfull.seals_iff ⟨fun _ => 0⟩ (List.replicate 17 5)).mpr hworkable
  refine ⟨⟨sealed, hsealed, (hfull.split _ _ _ hsealed).1, ?_⟩, hrefused, ?_⟩
  · exact (hfull.opens_iff _ _ _).mpr hsealed
  · exact (hshort.refuses_iff _ _ _).mp hrefused

end JoseTokens.Algorithm
