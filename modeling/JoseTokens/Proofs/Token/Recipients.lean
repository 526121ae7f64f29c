import JoseTokens.Proofs.Key.Primitive
import JoseTokens.Proofs.Rsa.Key
import JoseTokens.Proofs.Rsa.Oaep
import JoseTokens.Proofs.Token.Decryption
import Mathlib.NumberTheory.LucasLehmer

namespace JoseTokens

def Jwk.rsaNumbers? (key : Jwk) : Option Rsa.PublicKey :=
  match key.material with
  | .rsa shown _ => some ⟨Bytes.toNat shown.n, Bytes.toNat shown.e⟩
  | _ => none

theorem RsaPublic.numbers_congr {a b : RsaPublic} (hn : Bytes.toNat a.n = Bytes.toNat b.n)
    (he : Bytes.toNat a.e = Bytes.toNat b.e) : a.numbers = b.numbers := by
  rw [RsaPublic.numbers, RsaPublic.numbers, hn, he]

theorem RsaPublic.numbers_ok {shown : RsaPublic} {key : Rsa.PublicKey}
    (h : shown.numbers = .ok key) : key = ⟨Bytes.toNat shown.n, Bytes.toNat shown.e⟩ :=
  (numbers_eq_ok_iff.mp h).2.2.symm

theorem RsaPublic.privateNumbers_ok {shown : RsaPublic} {secret : RsaSecret}
    {key : Rsa.PrivateKey} (h : shown.privateNumbers secret = .ok key) :
    key.toPublic = ⟨Bytes.toNat shown.n, Bytes.toNat shown.e⟩ := by
  obtain ⟨-, rfl⟩ := Rsa.PrivateKey.check_eq_ok_iff.mp (privateNumbers_eq_ok_iff.mp h)
  rfl

theorem RsaPublic.privateNumbers_of_check {shown : RsaPublic} {secret : RsaSecret}
    {key : Rsa.PrivateKey} (hn : Bytes.toNat shown.n = key.n) (he : Bytes.toNat shown.e = key.e)
    (hd : Bytes.toNat secret.d = key.d)
    (hprimes : [Bytes.toNat secret.p, Bytes.toNat secret.q] = key.primes)
    (hcheck : key.check = .ok key) : shown.privateNumbers secret = .ok key := by
  rw [privateNumbers_eq_ok_iff, hn, he, hd, hprimes]
  exact hcheck

namespace Algorithm

variable {hash : HashName} {own key other : Jwk} {entropy : Entropy} {content wrapped : Bytes}

theorem encrypt_numbers (h : (rsaOaep hash).encrypt key entropy content = .ok wrapped) :
    ∃ numbers, key.rsaNumbers? = some numbers ∧
      numbers.encrypt hash (entropy.take hash.size) content = .ok wrapped := by
  obtain ⟨shown, secret, numbers, hmaterial, hnumbers, hwrapped⟩ := encrypt_rsaOaep h
  refine ⟨numbers, ?_, hwrapped⟩
  rw [Jwk.rsaNumbers?, hmaterial, RsaPublic.numbers_ok hnumbers]

theorem encrypt_congr (hsame : other.rsaNumbers? = key.rsaNumbers?)
    (h : (rsaOaep hash).encrypt other entropy content = .ok wrapped) :
    (rsaOaep hash).encrypt key entropy content = .ok wrapped := by
  obtain ⟨shown, _, numbers, hmaterial, hnumbers, hwrapped⟩ := encrypt_rsaOaep h
  rw [Jwk.rsaNumbers?, hmaterial, Jwk.rsaNumbers?] at hsame
  cases hkey : key.material with
  | rsa shown' secret' =>
      rw [hkey] at hsame
      obtain ⟨hn, he⟩ := Rsa.PublicKey.mk.inj (Option.some.inj hsame)
      have hnumbers' : shown'.numbers = .ok numbers :=
        (RsaPublic.numbers_congr hn he).symm.trans hnumbers
      unfold encrypt
      rw [hkey]
      simp only [hnumbers', Bind.bind, Except.bind, hwrapped]
      rfl
  | ec shown' d => rw [hkey] at hsame; cases hsame
  | okp shown' d => rw [hkey] at hsame; cases hsame
  | oct k => rw [hkey] at hsame; cases hsame

theorem decrypt_rsaOaep (h : (rsaOaep hash).decrypt own wrapped = .ok content) :
    ∃ shown secret numbers, own.material = .rsa shown (some secret) ∧
      shown.privateNumbers secret = .ok numbers ∧ numbers.decrypt hash wrapped = .ok content := by
  unfold decrypt at h
  cases hmaterial : own.material with
  | rsa shown secret =>
      rw [hmaterial] at h
      cases secret with
      | none => cases h
      | some secret =>
          obtain ⟨numbers, hnumbers, h⟩ := bind_eq_ok h
          split at h
          next plaintext hplaintext =>
            cases h
            exact ⟨shown, secret, numbers, rfl, hnumbers, hplaintext⟩
          · cases h
  | ec shown d => rw [hmaterial] at h; cases h
  | okp shown d => rw [hmaterial] at h; cases h
  | oct k => rw [hmaterial] at h; cases h

theorem size_eq_of_decrypt (hwrap : (rsaOaep hash).encrypt other entropy content = .ok wrapped)
    {hash' : HashName} {content' : Bytes}
    (hunwrap : (rsaOaep hash').decrypt own wrapped = .ok content') :
    other.rsaNumbers?.map Rsa.PublicKey.size = own.rsaNumbers?.map Rsa.PublicKey.size := by
  obtain ⟨numbers, hother, hwrapped⟩ := encrypt_numbers hwrap
  obtain ⟨shown, secret, numbers', hmaterial, hnumbers', hunwrapped⟩ := decrypt_rsaOaep hunwrap
  have hown : own.rsaNumbers? = some numbers'.toPublic := by
    rw [Jwk.rsaNumbers?, hmaterial, RsaPublic.privateNumbers_ok hnumbers']
  have hwidth : wrapped.length = numbers.size := by
    rw [(Rsa.PublicKey.encrypt_ok hwrapped).2, Bytes.length_ofNat]
  have hwidth' : wrapped.length = numbers'.toPublic.size := Rsa.PrivateKey.decrypt_ok hunwrapped
  rw [hother, hown, Option.map_some, Option.map_some, ← hwidth, hwidth']

def UnwrapsFor (own key : Jwk) : Prop :=
  ∀ hash entropy content wrapped, (rsaOaep hash).encrypt key entropy content = .ok wrapped →
    (rsaOaep hash).decrypt own wrapped = .ok content

theorem unwrapsFor_of_sound {shown : RsaPublic} {secret : RsaSecret} {numbers : Rsa.PrivateKey}
    {p q : Nat} (hmaterial : own.material = .rsa shown (some secret))
    (hnumbers : shown.privateNumbers secret = .ok numbers) (hsound : Rsa.Sound numbers p q)
    (hsame : key.rsaNumbers? = own.rsaNumbers?) : UnwrapsFor own key := by
  intro hash entropy content wrapped h
  obtain ⟨target, htarget, hwrapped⟩ := encrypt_numbers h
  have hown : own.rsaNumbers? = some numbers.toPublic := by
    rw [Jwk.rsaNumbers?, hmaterial, RsaPublic.privateNumbers_ok hnumbers]
  obtain rfl : target = numbers.toPublic := by
    rw [hsame, hown] at htarget
    exact (Option.some.inj htarget).symm
  have hseed : (entropy.take hash.size).length = hash.size := by
    rw [Entropy.take, List.length_map, List.length_range]
  have hopened := hsound.decrypt_encrypt hseed hwrapped
  unfold decrypt
  rw [hmaterial]
  simp only [hnumbers, Bind.bind, Except.bind, hopened]
  rfl

end Algorithm

namespace Jwe

section

variable {e : Engine (Except Error)} {t : Jwe} {own : Jwk} {reference : Reference}
  {content : Bytes}

def Unwraps (e : Engine (Except Error)) (t : Jwe) (own : Jwk) (reference : Reference)
    (r : Recipient) (result : Except Error Bytes) : Prop :=
  ∃ alg a, t.algOf? r = some alg ∧ Algorithm.ofId alg = .ok a ∧
    e.decryptKept a own reference r.encryptedKey = result

theorem unwraps_of_decrypt {config : Config} {store : KeyStore} {r : Recipient} {alg : String}
    {hash : HashName} (halg : t.algOf? r = some alg)
    (hid : Algorithm.ofId alg = .ok (.rsaOaep hash))
    (hunwrapped : (Algorithm.rsaOaep hash).decrypt own r.encryptedKey = .ok content) :
    Unwraps (Engine.software config store) t own reference r (.ok content) := by
  refine ⟨alg, .rsaOaep hash, halg, hid, ?_⟩
  rw [Engine.decryptKept_software (Algorithm.id?_ofId hid),
    Algorithm.checkKey_of_decrypt hunwrapped]
  exact hunwrapped

theorem unwrapFirst_unknown {index : Nat} {r : Recipient} {alg : String} {error : Error}
    (halg : t.algOf? r = some alg) (hunknown : Algorithm.ofId alg = .error error)
    (rest : List (Nat × Recipient)) :
    unwrapFirst e t own reference ((index, r) :: rest) = .error error := by
  rw [unwrapFirst, halg]
  simp only [hunknown, liftResult_except]
  rfl

theorem unwrapFirst_ok {index : Nat} {r : Recipient} (h : Unwraps e t own reference r (.ok content))
    (rest : List (Nat × Recipient)) :
    unwrapFirst e t own reference ((index, r) :: rest) = .ok content := by
  obtain ⟨alg, a, halg, ha, hunwrapped⟩ := h
  rw [unwrapFirst, halg]
  simp only [ha, liftResult_except]
  simp [bind, Except.bind, hunwrapped, tryCatch, tryCatchThe, MonadExceptOf.tryCatch,
    Except.tryCatch, Functor.map, Except.map, pure, Except.pure]

theorem unwrapFirst_error {index : Nat} {r : Recipient} {error : Error}
    (h : Unwraps e t own reference r (.error error)) (rest : List (Nat × Recipient)) :
    unwrapFirst e t own reference ((index, r) :: rest) =
      unwrapFirst e t own reference rest := by
  obtain ⟨alg, a, halg, ha, hunwrapped⟩ := h
  rw [unwrapFirst, halg]
  simp only [ha, liftResult_except]
  simp [bind, Except.bind, hunwrapped, tryCatch, tryCatchThe, MonadExceptOf.tryCatch,
    Except.tryCatch, Functor.map, Except.map, pure, Except.pure]

theorem unwrapFirst_found {order : List (Nat × Recipient)}
    (hall : ∀ p ∈ order, Unwraps e t own reference p.2 (.ok content) ∨
      ∃ error, Unwraps e t own reference p.2 (.error error))
    (hsome : ∃ p ∈ order, Unwraps e t own reference p.2 (.ok content)) :
    unwrapFirst e t own reference order = .ok content := by
  induction order with
  | nil =>
      obtain ⟨p, hp, _⟩ := hsome
      cases hp
  | cons first order ih =>
      obtain ⟨index, r⟩ := first
      obtain ⟨hfirst, hrest⟩ := List.forall_mem_cons.mp hall
      rcases hfirst with hfound | ⟨error, hfailed⟩
      · exact unwrapFirst_ok hfound order
      · obtain ⟨p, hp, hunwraps⟩ := hsome
        rcases List.mem_cons.mp hp with rfl | hp
        · exact unwrapFirst_ok hunwraps order
        · rw [unwrapFirst_error hfailed]
          exact ih hrest ⟨p, hp, hunwraps⟩

theorem mem_trialOrder (t : Jwe) (kid : Option String) (p : Nat × Recipient) :
    p ∈ t.trialOrder kid ↔ p ∈ t.recipients.zipIdx.map fun (r, i) => (i, r) := by
  rw [trialOrder, List.partition_eq_filter_filter]
  simp only [List.mem_append, List.mem_filter, Function.comp_apply, Bool.not_eq_true']
  constructor
  · rintro (h | h)
    · exact h.1
    · exact h.1
  · intro h
    cases hnamed : t.isNamed kid p.2 with
    | true => exact .inl ⟨h, rfl⟩
    | false => exact .inr ⟨h, rfl⟩

theorem mem_recipients_of_trialOrder {kid : Option String} {p : Nat × Recipient}
    (h : p ∈ t.trialOrder kid) : p.2 ∈ t.recipients := by
  obtain ⟨⟨r, i⟩, hmem, rfl⟩ := List.mem_map.mp ((mem_trialOrder t kid p).mp h)
  exact List.fst_mem_of_mem_zipIdx hmem

theorem exists_mem_trialOrder (kid : Option String) {r : Recipient} (h : r ∈ t.recipients) :
    ∃ p ∈ t.trialOrder kid, p.2 = r := by
  obtain ⟨i, hi, rfl⟩ := List.mem_iff_getElem.mp h
  refine ⟨(i, t.recipients[i]), (mem_trialOrder t kid _).mpr ?_, rfl⟩
  exact List.mem_map.mpr ⟨(t.recipients[i], i), by simp [List.mem_zipIdx_iff_getElem?], rfl⟩

theorem Sent.opens {config config' : Config} {store' : KeyStore} {recipients : List Jwk}
    {payload : Bytes} {format : Format} {options : EncryptOptions} {bits : Nat}
    (h : Sent config recipients payload format options content bits t) :
    (Engine.software config' store').decrypt
      (.aesGcm bits t.iv (authenticatedData t.protectedHeader t.aad) Algorithm.tagBits)
      (Jwk.oct content) (t.ciphertext ++ t.tag) = .ok payload := by
  obtain ⟨enc, hbits, _⟩ := h.enc
  have hopen : (Algorithm.aesGcm bits t.iv (authenticatedData t.protectedHeader t.aad)
      Algorithm.tagBits).decrypt (Jwk.oct content) (t.ciphertext ++ t.tag) = .ok payload :=
    (Algorithm.decrypt_aesGcm_eq_ok_iff rfl).mpr ⟨h.workable, h.sealed⟩
  rw [Engine.decrypt_software (Algorithm.id?_aesGcm hbits _ _ _), checkKey_aesGcm h.workable]
  exact hopen

theorem decrypt_of_unwrapFirst {config config' : Config} {store' : KeyStore}
    {recipients : List Jwk} {payload : Bytes} {format : Format} {options : EncryptOptions}
    {bits : Nat} (h : Sent config recipients payload format options content bits t)
    (hown : store'.latest reference = .ok own)
    (hfound : unwrapFirst (Engine.software config' store') t own reference
      (t.trialOrder own.kid?) = .ok content) :
    decrypt (Engine.software config' store') t reference = .ok payload := by
  obtain ⟨enc, hbits, henc⟩ := h.enc
  have hlatest : (Engine.software config' store').store.latest reference = .ok own := hown
  rw [decrypt_eq (check_complete h.complete) henc hlatest, hfound]
  simp only [Except.bind, Algorithm.ofId, hbits]
  exact h.opens

end

def OpensNoOther (config : Config) (own key : Jwk) (recipients : List Jwk) (t : Jwe) : Prop :=
  ∀ other r, (other, r) ∈ recipients.zip t.recipients → other.rsaNumbers? ≠ key.rsaNumbers? →
    ∀ a content, Algorithm.ofId (other.alg?.getD config.keyEncryption) = .ok a →
      a.decrypt own r.encryptedKey ≠ .ok content

section

variable {config config' : Config} {store' : KeyStore} {recipients : List Jwk} {payload : Bytes}
  {format : Format} {options : EncryptOptions} {content : Bytes} {bits : Nat} {t : Jwe}
  {own key : Jwk} {reference : Reference}

theorem Sent.unwraps_own (h : Sent config recipients payload format options content bits t)
    (hformat : format = .compact ∨ 2 ≤ recipients.length)
    (hopens : Algorithm.UnwrapsFor own key) {other : Jwk} {r : Recipient}
    (hpair : (other, r) ∈ recipients.zip t.recipients)
    (hsame : other.rsaNumbers? = key.rsaNumbers?) :
    Unwraps (Engine.software config' store') t own reference r (.ok content) := by
  obtain ⟨hash, entropy, hid, hwraps⟩ := (List.forall₂_zip h.recipients hpair).wraps
  exact unwraps_of_decrypt (h.algOf? hformat hpair) hid
    (hopens hash entropy content r.encryptedKey (Algorithm.encrypt_congr hsame hwraps))

theorem Sent.unwraps_other (h : Sent config recipients payload format options content bits t)
    (hformat : format = .compact ∨ 2 ≤ recipients.length)
    (hothers : OpensNoOther config own key recipients t) {other : Jwk} {r : Recipient}
    (hpair : (other, r) ∈ recipients.zip t.recipients)
    (hdiffers : other.rsaNumbers? ≠ key.rsaNumbers?) :
    ∃ error, Unwraps (Engine.software config' store') t own reference r (.error error) := by
  obtain ⟨hash, _, hid, _⟩ := (List.forall₂_zip h.recipients hpair).wraps
  cases hresult : (Engine.software config' store').decryptKept (.rsaOaep hash) own reference
      r.encryptedKey with
  | error error => exact ⟨error, _, _, h.algOf? hformat hpair, hid, hresult⟩
  | ok opened =>
      rw [Engine.decryptKept_software (Algorithm.id?_ofId hid)] at hresult
      obtain ⟨_, _, hopened⟩ := bind_eq_ok hresult
      exact absurd hopened (hothers other r hpair hdiffers _ opened hid)

theorem Sent.opensNoOther (h : Sent config recipients payload format options content bits t)
    (hwidth : ∀ other ∈ recipients, other.rsaNumbers? ≠ key.rsaNumbers? →
      other.rsaNumbers?.map Rsa.PublicKey.size ≠ own.rsaNumbers?.map Rsa.PublicKey.size) :
    OpensNoOther config own key recipients t := by
  intro other r hpair hdiffers a opened ha hopened
  obtain ⟨hash, entropy, hid, hwraps⟩ := (List.forall₂_zip h.recipients hpair).wraps
  rw [hid] at ha
  cases ha
  exact hwidth other (List.of_mem_zip hpair).1 hdiffers
    (Algorithm.size_eq_of_decrypt hwraps hopened)

theorem recipient_decrypts {store : KeyStore} {entropy : Entropy}
    (hencrypt : encrypt (Engine.software config store) recipients payload format options entropy =
      .ok t)
    (hformat : format = .compact ∨ 2 ≤ recipients.length)
    (hprotected : options.protectedHeader.Portable Json.maxDepth)
    (hunprotected : options.unprotected.Portable unprotectedLevels)
    (hkey : key ∈ recipients) (hopens : Algorithm.UnwrapsFor own key)
    (hothers : OpensNoOther config own key recipients t)
    (hown : store'.latest reference = .ok own) :
    ∃ text, t.serialize format = .ok text ∧ deserialize text = .ok t ∧
      decrypt (Engine.software config' store') t reference = .ok payload := by
  obtain ⟨content, bits, hsent⟩ := encrypt_sent hencrypt
  obtain ⟨text, hwritten, hread⟩ := hsent.roundTrip hformat hprotected hunprotected
  have hall (p : Nat × Recipient) (hp : p ∈ t.trialOrder own.kid?) :
      Unwraps (Engine.software config' store') t own reference p.2 (.ok content) ∨
        ∃ error, Unwraps (Engine.software config' store') t own reference p.2
          (.error error) := by
    obtain ⟨other, hpair, _⟩ := hsent.madeFor (mem_recipients_of_trialOrder hp)
    by_cases hsame : other.rsaNumbers? = key.rsaNumbers?
    · exact .inl (hsent.unwraps_own hformat hopens hpair hsame)
    · exact .inr (hsent.unwraps_other hformat hothers hpair hsame)
  obtain ⟨r, hpair⟩ := hsent.entryOf hkey
  have hmember : r ∈ t.recipients := (List.of_mem_zip hpair).2
  obtain ⟨p, hp, rfl⟩ := exists_mem_trialOrder own.kid? hmember
  have hfound : unwrapFirst (Engine.software config' store') t own reference
      (t.trialOrder own.kid?) = .ok content :=
    unwrapFirst_found hall ⟨p, hp, hsent.unwraps_own hformat hopens hpair rfl⟩
  exact ⟨text, hwritten, hread, decrypt_of_unwrapFirst hsent hown hfound⟩

end

def narrowPair : Rsa.PrivateKey where
  n := (2 ^ 521 - 1) * (2 ^ 127 - 1)
  e := 13
  d := (1 + 2 * Nat.lcm (2 ^ 521 - 2) (2 ^ 127 - 2)) / 13
  primes := [2 ^ 521 - 1, 2 ^ 127 - 1]

theorem sound_narrowPair : Rsa.Sound narrowPair (2 ^ 521 - 1) (2 ^ 127 - 1) where
  primes := rfl
  modulus := rfl
  left := lucas_lehmer_sufficiency 521 (by norm_num) (by norm_num)
  right := lucas_lehmer_sufficiency 127 (by norm_num) (by norm_num)
  distinct := by decide +kernel
  leftExponent := by decide +kernel
  rightExponent := by decide +kernel

def narrowSecret : RsaSecret where
  d := Bytes.minimal narrowPair.d
  p := Bytes.minimal (2 ^ 521 - 1)
  q := Bytes.minimal (2 ^ 127 - 1)
  dp := Bytes.minimal (narrowPair.d % (2 ^ 521 - 2))
  dq := Bytes.minimal (narrowPair.d % (2 ^ 127 - 2))
  qi := Bytes.minimal ((Number.inverse? (2 ^ 127 - 1) (2 ^ 521 - 1)).getD 0)

def narrowKey (secret : Option RsaSecret) : Jwk where
  labels := { kid := some "party" }
  material := .rsa ⟨Bytes.minimal narrowPair.n, Bytes.minimal narrowPair.e⟩ secret

def wideKey : Jwk where
  labels := { kid := some "party", alg := some "RSA-OAEP-256" }
  material := .rsa ⟨Bytes.minimal (2 ^ 1024 - 1), Bytes.minimal 3⟩ none

def partyOptions : EncryptOptions where
  enc := some "A128GCM"
  unprotected := Header.insertText {} "note" "both"
  aad := some [1, 2, 3]

theorem privateNumbers_narrowSecret :
    RsaPublic.privateNumbers ⟨Bytes.minimal narrowPair.n, Bytes.minimal narrowPair.e⟩
      narrowSecret = .ok narrowPair := by
  apply RsaPublic.privateNumbers_of_check
  · rw [Bytes.toNat_minimal]
  · rw [Bytes.toNat_minimal]
  · rw [narrowSecret, Bytes.toNat_minimal]
  · rw [narrowSecret, Bytes.toNat_minimal, Bytes.toNat_minimal]
    exact sound_narrowPair.primes
  · decide +kernel

theorem recipient_decrypts_second :
    ∃ t text, encrypt (Engine.software { keyEncryption := "RSA-OAEP" } (.memory {}))
        [wideKey, narrowKey none] [4, 5, 6] .general partyOptions ⟨UInt8.ofNat⟩ = .ok t ∧
      t.serialize .general = .ok text ∧ deserialize text = .ok t ∧
      decrypt (Engine.software {} (.memory ⟨[((.secret, "party"),
        ⟨narrowKey (some narrowSecret), []⟩)]⟩)) t { name := "party", storage := .secret } =
          .ok [4, 5, 6] := by
  have hok : (encrypt (Engine.software { keyEncryption := "RSA-OAEP" } (.memory {}))
      [wideKey, narrowKey none] [4, 5, 6] .general partyOptions ⟨UInt8.ofNat⟩).isOk = true := by
    decide +kernel
  cases hencrypt : encrypt (Engine.software { keyEncryption := "RSA-OAEP" } (.memory {}))
      [wideKey, narrowKey none] [4, 5, 6] .general partyOptions ⟨UInt8.ofNat⟩ with
  | error error =>
      rw [hencrypt] at hok
      cases hok
  | ok t =>
      obtain ⟨content, bits, hsent⟩ := encrypt_sent hencrypt
      have hothers : OpensNoOther { keyEncryption := "RSA-OAEP" } (narrowKey (some narrowSecret))
          (narrowKey none) [wideKey, narrowKey none] t := by
        refine hsent.opensNoOther fun other hother hdiffers => ?_
        rcases List.mem_pair.mp hother with rfl | rfl
        · decide +kernel
        · exact absurd rfl hdiffers
      have hopens : Algorithm.UnwrapsFor (narrowKey (some narrowSecret)) (narrowKey none) :=
        Algorithm.unwrapsFor_of_sound rfl privateNumbers_narrowSecret sound_narrowPair rfl
      have hlatest : (KeyStore.memory ⟨[((.secret, "party"),
          ⟨narrowKey (some narrowSecret), []⟩)]⟩).latest { name := "party", storage := .secret } =
            .ok (narrowKey (some narrowSecret)) := rfl
      obtain ⟨text, hwritten, hread, hopened⟩ := recipient_decrypts hencrypt (.inr (by decide))
        (Header.portable_empty 126)
        (Header.portable_insertText (Header.portable_empty 125) "note" "both")
        (List.mem_cons_of_mem _ List.mem_cons_self) hopens hothers hlatest
      exact ⟨t, text, rfl, hwritten, hread, hopened⟩

end Jwe

end JoseTokens
