import JoseTokens.Proofs.Json.Compact
import JoseTokens.Proofs.Token.JwsGrammar

namespace JoseTokens

open Json

namespace Protected

def Spelled (p : Protected) : Prop :=
  (p.encoded = "" ∧ p.header = {}) ∨
    (p.encoded ≠ "" ∧ ∃ bytes levels, p.encoded = Base64Url.encode bytes ∧
      DocumentOf (HeaderText levels) bytes p.header)

theorem spelled_ofHeader {h : Header} (hdistinct : h.Distinct) (hnumbers : h.WholeNumbers) :
    (ofHeader h).Spelled := by
  have hisEmpty := ofHeader_encoded_isEmpty h
  cases hempty : h.isEmpty with
  | true =>
      rw [hempty] at hisEmpty
      exact .inl ⟨String.isEmpty_iff.mp hisEmpty, Header.eq_empty hempty⟩
  | false =>
      rw [hempty] at hisEmpty
      have hencoded : (ofHeader h).encoded = Base64Url.encode h.toJson.bytes := by
        simp only [ofHeader, hempty, Bool.false_eq_true, if_false, ofText_compact]
      have hdenotes : Denotes (depth h.toJson) h.toJson.bytes h.toJson :=
        denotes_bytes ((Json.portable_iff _).mpr ⟨hdistinct, hnumbers⟩) (Nat.le_refl _)
      refine .inr ⟨fun hnone => ?_, h.toJson.bytes, depth h.toJson, hencoded, .of_text hdenotes⟩
      rw [hnone] at hisEmpty
      cases hisEmpty

theorem Genuine.spelled {p : Protected} (h : p.Genuine) (hnumbers : p.header.WholeNumbers) :
    p.Spelled := by
  rcases h with hkept | ⟨header, hdistinct, rfl⟩
  · rcases decode_eq_ok_iff.mp hkept with ⟨hnone, hp⟩ | ⟨hsome, _, bytes, hbytes, hdocument⟩
    · exact .inl ⟨hnone, congrArg header hp⟩
    · exact .inr ⟨hsome, bytes, maxDepth, hbytes, hdocument⟩
  · exact spelled_ofHeader hdistinct hnumbers

theorem Spelled.header_eq {p q : Protected} (hp : p.Spelled) (hq : q.Spelled)
    (h : p.encoded = q.encoded) : p.header = q.header := by
  rcases hp with ⟨hp, hheader⟩ | ⟨hp, bytes, _, hbytes, hdocument⟩ <;>
    rcases hq with ⟨hq, hheader'⟩ | ⟨hq, bytes', _, hbytes', hdocument'⟩
  · rw [hheader, hheader']
  · exact absurd (h ▸ hp) hq
  · exact absurd (h.trans hq) hp
  · obtain rfl : bytes = bytes' := Base64Url.encode_inj.mp (hbytes ▸ hbytes' ▸ h)
    have hmembers : p.header.toJson = q.header.toJson :=
      DocumentOf.functional (hdocument.imp id) (hdocument'.imp id)
    exact congrArg Header.mk (Json.object.inj hmembers)

theorem Spelled.not_mem_point {p : Protected} (h : p.Spelled) : '.' ∉ p.encoded.toList := by
  rcases h with ⟨hnone, _⟩ | ⟨_, bytes, _, hbytes, _⟩
  · rw [hnone]
    exact List.not_mem_nil
  · rw [hbytes]
    exact Jwe.not_mem_point (Jwe.written_encode bytes)

end Protected

theorem pointed_inj {a b a' b' : String} (ha : '.' ∉ a.toList) (hb : '.' ∉ b.toList) :
    a ++ "." ++ b = a' ++ "." ++ b' ↔ a = a' ∧ b = b' := by
  have hsplit : a.toList ++ '.' :: b.toList = a'.toList ++ '.' :: b'.toList ↔
      a.toList = a'.toList ∧ '.' = '.' ∧ b.toList = b'.toList :=
    List.append_cons_inj_of_notMem ha hb
  have hpoint : ".".toList = ['.'] := rfl
  rw [← @String.toList_inj a, ← @String.toList_inj b, ← String.toList_inj]
  simpa only [String.toList_append, hpoint, List.append_assoc, List.singleton_append,
    true_and] using hsplit

section

variable {p q : Protected} (hp : '.' ∉ p.encoded.toList)

include hp

theorem Jws.signingInput_inj (payload payload' : Bytes) :
    signingInput p payload = signingInput q payload' ↔
      p.encoded = q.encoded ∧ payload = payload' := by
  rw [signingInput, signingInput, Bytes.ofText_inj,
    pointed_inj hp (Jwe.not_mem_point (Jwe.written_encode payload)), Base64Url.encode_inj]

theorem Jwe.authenticatedData_inj (hq : '.' ∉ q.encoded.toList) (aad aad' : Bytes) :
    authenticatedData p aad = authenticatedData q aad' ↔ p.encoded = q.encoded ∧ aad = aad' := by
  have hpointed (r r' : Protected) (hr : '.' ∉ r.encoded.toList) (bytes : Bytes) :
      r.encoded ≠ r'.encoded ++ "." ++ Base64Url.encode bytes := by
    intro h
    rw [h, String.toList_append, String.toList_append] at hr
    exact hr (List.mem_append_left _ (List.mem_append_right _ List.mem_cons_self))
  rw [authenticatedData, authenticatedData]
  cases aad with
  | nil =>
      cases aad' with
      | nil => simp [Bytes.ofText_inj]
      | cons b aad' => simp [Bytes.ofText_inj, hpointed p q hp]
  | cons b aad =>
      cases aad' with
      | nil => simp [Bytes.ofText_inj, (hpointed q p hq _).symm]
      | cons b' aad' =>
          simp only [List.isEmpty_cons, Bool.false_eq_true, if_false,
            Bytes.ofText_inj,
            pointed_inj hp (Jwe.not_mem_point (Jwe.written_encode _)), Base64Url.encode_inj]

end

theorem coveredText_inj {p q : Protected} (hp : p.Genuine) (hq : q.Genuine)
    (hnumbers : p.header.WholeNumbers) (hnumbers' : q.header.WholeNumbers)
    (bytes bytes' : Bytes) :
    (Jws.signingInput p bytes = Jws.signingInput q bytes' ↔
      p.encoded = q.encoded ∧ p.header = q.header ∧ bytes = bytes') ∧
    (Jwe.authenticatedData p bytes = Jwe.authenticatedData q bytes' ↔
      p.encoded = q.encoded ∧ p.header = q.header ∧ bytes = bytes') := by
  have hspelled := hp.spelled hnumbers
  have hspelled' := hq.spelled hnumbers'
  have hheader : p.encoded = q.encoded ∧ bytes = bytes' ↔
      p.encoded = q.encoded ∧ p.header = q.header ∧ bytes = bytes' :=
    and_congr_right fun h => (and_iff_right (hspelled.header_eq hspelled' h)).symm
  rw [Jws.signingInput_inj hspelled.not_mem_point,
    Jwe.authenticatedData_inj hspelled.not_mem_point hspelled'.not_mem_point]
  exact ⟨hheader, hheader⟩

theorem coveredText_inj_spaced :
    ∃ p, Protected.decode "eyAiYWxnIiA6ICJIUzI1NiIgfQ" = .ok p ∧
      p.header.alg? = some "HS256" ∧
      ∀ bytes bytes',
        Jws.signingInput p bytes ≠
          Jws.signingInput (.ofHeader (Header.insertText {} "alg" "HS256")) bytes' ∧
        Jwe.authenticatedData p bytes ≠
          Jwe.authenticatedData (.ofHeader (Header.insertText {} "alg" "HS256")) bytes' := by
  obtain ⟨p, hread, halg, hnumbers⟩ := exists_of_any
    (P := fun p => p.header.alg? = some "HS256" ∧ p.header.WholeNumbers)
    (x := Protected.decode "eyAiYWxnIiA6ICJIUzI1NiIgfQ") (by decide +kernel)
  have hencoded : p.encoded ≠
      (Protected.ofHeader (Header.insertText {} "alg" "HS256")).encoded := by
    rw [Protected.encoded_of_decode hread]
    decide +kernel
  refine ⟨p, hread, halg, fun bytes bytes' => ?_⟩
  have hinj := coveredText_inj (.inl (Protected.kept_of_decode hread))
    (.inr ⟨Header.insertText {} "alg" "HS256", by decide, rfl⟩) hnumbers (by decide) bytes bytes'
  exact ⟨fun h => hencoded (hinj.1.mp h).1, fun h => hencoded (hinj.2.mp h).1⟩

end JoseTokens
