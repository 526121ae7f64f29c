import JoseTokens.Proofs.Token.JwsRoundTrip
import JoseTokens.Proofs.Token.JweRoundTrip

namespace JoseTokens

namespace Jws

def IsCompact (text : String) : Prop :=
  (compactSegments (Text.trim text)).length = 3

instance : DecidablePred IsCompact :=
  fun text => inferInstanceAs (Decidable ((compactSegments (Text.trim text)).length = 3))

theorem compactText_of_deserialize {text : String} {t : Jws} (hcompact : IsCompact text)
    (h : deserialize text = .ok t) :
    ∃ s, t.signatures = [s] ∧ s.header = {} ∧ compactText t.payload s = Text.trim text := by
  obtain ⟨protectedText, payload, signature, hsegments⟩ := List.length_eq_three.mp hcompact
  rw [deserialize, hsegments] at h
  obtain ⟨s, hs, hheader, hp, hpayload, hsignature⟩ := ofCompact_ok h
  have hparts : compactParts t.payload s = compactSegments (Text.trim text) := by
    rw [hsegments, compactParts, Protected.encoded_of_decode hp, encode_of_decodeField hpayload,
      encode_of_decodeField hsignature]
  refine ⟨s, hs, hheader, ?_⟩
  rw [compactText_eq, hparts, joined_compactSegments (by simp [hsegments])]

theorem serialize_of_deserialize {text : String} {t : Jws} (hcompact : IsCompact text)
    (h : deserialize text = .ok t) : t.serialize .compact = .ok (Text.trim text) := by
  obtain ⟨s, hs, hheader, htext⟩ := compactText_of_deserialize hcompact h
  rw [serialize_compact hs hheader, htext]

theorem trim_eq_of_alike {text other : String} {t u : Jws} (hcompact : IsCompact text)
    (hcompact' : IsCompact other) (ht : deserialize text = .ok t) (hu : deserialize other = .ok u)
    (h : t = u ∨ t.same u = true) : Text.trim text = Text.trim other := by
  rcases h with rfl | h
  · have htext := serialize_of_deserialize hcompact ht
    exact Except.ok.inj (htext.symm.trans (serialize_of_deserialize hcompact' hu))
  obtain ⟨s, hs, _, htext⟩ := compactText_of_deserialize hcompact ht
  obtain ⟨s', hs', _, hother⟩ := compactText_of_deserialize hcompact' hu
  simp only [same, hs, hs', sameSignatures, Signature.same, Protected.same, Bool.and_eq_true,
    beq_iff_eq, and_true] at h
  obtain ⟨hpayload, ⟨⟨hencoded, _⟩, _⟩, hsignature⟩ := h
  rw [← htext, ← hother, compactText, compactText, hpayload, hencoded, hsignature]

end Jws

namespace Jwe

def IsCompact (text : String) : Prop :=
  (compactSegments (Text.trim text)).length = 5

instance : DecidablePred IsCompact :=
  fun text => inferInstanceAs (Decidable ((compactSegments (Text.trim text)).length = 5))

theorem compactText_of_deserialize {text : String} {t : Jwe} (hcompact : IsCompact text)
    (h : deserialize text = .ok t) :
    ∃ r, t.recipients = [r] ∧ t.fitsCompact r ∧ t.compactText r = Text.trim text := by
  obtain ⟨protectedText, encryptedKey, iv, ciphertext, tag, hsegments⟩ :
      ∃ a b c d e, compactSegments (Text.trim text) = [a, b, c, d, e] := by
    match hlist : compactSegments (Text.trim text) with
    | [a, b, c, d, e] => exact ⟨a, b, c, d, e, rfl⟩
    | [] | [_] | [_, _] | [_, _, _] | [_, _, _, _] | _ :: _ :: _ :: _ :: _ :: _ :: _ =>
        simp [IsCompact, hlist] at hcompact
  obtain ⟨hparse, _⟩ := (deserialize_ok_iff text t).mp h
  rw [parse, hsegments] at hparse
  obtain ⟨r, hr, hfits, hp, hkey, hiv, hciphertext, htag⟩ := ofCompact_ok hparse
  have hparts : compactParts t r = compactSegments (Text.trim text) := by
    rw [hsegments, compactParts, Protected.encoded_of_decode hp, encode_of_decodeField hkey,
      encode_of_decodeField hiv, encode_of_decodeField hciphertext, encode_of_decodeField htag]
  refine ⟨r, hr, hfits, ?_⟩
  rw [compactText_eq, hparts, joined_compactSegments (by simp [hsegments])]

theorem serialize_of_deserialize {text : String} {t : Jwe} (hcompact : IsCompact text)
    (h : deserialize text = .ok t) : t.serialize .compact = .ok (Text.trim text) := by
  obtain ⟨r, hr, hfits, htext⟩ := compactText_of_deserialize hcompact h
  rw [serialize_compact ((deserialize_ok_iff text t).mp h).2 hr hfits, htext]

theorem trim_eq_of_alike {text other : String} {t u : Jwe} (hcompact : IsCompact text)
    (hcompact' : IsCompact other) (ht : deserialize text = .ok t) (hu : deserialize other = .ok u)
    (h : t = u ∨ t.same u = true) : Text.trim text = Text.trim other := by
  rcases h with rfl | h
  · have htext := serialize_of_deserialize hcompact ht
    exact Except.ok.inj (htext.symm.trans (serialize_of_deserialize hcompact' hu))
  obtain ⟨r, hr, _, htext⟩ := compactText_of_deserialize hcompact ht
  obtain ⟨r', hr', _, hother⟩ := compactText_of_deserialize hcompact' hu
  simp only [same, hr, hr', sameRecipients, Recipient.same, Protected.same, Bool.and_eq_true,
    beq_iff_eq, and_true] at h
  obtain ⟨⟨⟨⟨⟨⟨⟨hencoded, _⟩, _⟩, hiv⟩, _⟩, hciphertext⟩, htag⟩, _, hkey⟩ := h
  rw [← htext, ← hother, compactText, compactText, hencoded, hiv, hciphertext, htag, hkey]

end Jwe

theorem compact_canonical :
    (∀ text t, Jws.IsCompact text → Jws.deserialize text = .ok t →
      t.serialize .compact = .ok (Text.trim text) ∧
        ∀ other u, Jws.IsCompact other → Jws.deserialize other = .ok u →
          t = u ∨ t.same u = true → Text.trim text = Text.trim other) ∧
    ∀ text t, Jwe.IsCompact text → Jwe.deserialize text = .ok t →
      t.serialize .compact = .ok (Text.trim text) ∧
        ∀ other u, Jwe.IsCompact other → Jwe.deserialize other = .ok u →
          t = u ∨ t.same u = true → Text.trim text = Text.trim other := by
  constructor
  · intro text t hcompact ht
    exact ⟨Jws.serialize_of_deserialize hcompact ht, fun other u hother hu =>
      Jws.trim_eq_of_alike hcompact hother ht hu⟩
  · intro text t hcompact ht
    exact ⟨Jwe.serialize_of_deserialize hcompact ht, fun other u hother hu =>
      Jwe.trim_eq_of_alike hcompact hother ht hu⟩

theorem compact_canonical_padded :
    (∃ t, Jws.deserialize " e30.aGk.AQ\n" = .ok t ∧ t.serialize .compact = .ok "e30.aGk.AQ" ∧
      ∀ other u, Jws.IsCompact other → Jws.deserialize other = .ok u → t.same u = true →
        Text.trim other = "e30.aGk.AQ") ∧
    ∃ t, Jwe.deserialize "\te30.AQ.Ag.Aw." = .ok t ∧
      t.serialize .compact = .ok "e30.AQ.Ag.Aw." := by
  constructor
  · obtain ⟨t, ht⟩ := exists_of_isOk (x := Jws.deserialize " e30.aGk.AQ\n") (by decide +kernel)
    have htrim : Text.trim " e30.aGk.AQ\n" = "e30.aGk.AQ" := by decide +kernel
    have hcompact : Jws.IsCompact " e30.aGk.AQ\n" := by decide +kernel
    obtain ⟨hwritten, hother⟩ := compact_canonical.1 _ t hcompact ht
    rw [htrim] at hwritten hother
    exact ⟨t, ht, hwritten, fun other u hcompact hu h => (hother other u hcompact hu (.inr h)).symm⟩
  · obtain ⟨t, ht⟩ := exists_of_isOk (x := Jwe.deserialize "\te30.AQ.Ag.Aw.") (by decide +kernel)
    have htrim : Text.trim "\te30.AQ.Ag.Aw." = "e30.AQ.Ag.Aw." := by decide +kernel
    have hcompact : Jwe.IsCompact "\te30.AQ.Ag.Aw." := by decide +kernel
    rw [← htrim]
    exact ⟨t, ht, (compact_canonical.2 _ t hcompact ht).1⟩

end JoseTokens
