import JoseTokens.Proofs.Token.JweText

namespace JoseTokens.Jws

def textObject (texts : List (String × String)) : Json :=
  .object (texts.map fun m => (m.1, .string m.2))

def flatTexts (protectedText payload signature : String) : List (String × String) :=
  [("payload", payload), ("protected", protectedText), ("signature", signature)]

def setText (f : Form) (m : String × String) : Form :=
  if m.1 = "payload" then { f with payload := some m.2 }
  else if m.1 = "protected" then { f with single := { f.single with protectedText := some m.2 } }
  else { f with single := { f.single with signature := some m.2 } }

theorem fills_text {d : Nat} (f : Form) {m : String × String}
    (hname : m.1 ∈ ["payload", "protected", "signature"]) :
    record.Fills d f [(m.1, .string m.2)] (setText f m) := by
  obtain ⟨name, text⟩ := m
  have hread := reads_optional_text text d
  simp only [List.mem_cons, List.not_mem_nil, or_false] at hname
  rcases hname with rfl | rfl | rfl
  · exact Json.Record.fills_of hread rfl rfl
  · exact Json.Record.fills_of hread rfl rfl
  · exact Json.Record.fills_of hread rfl rfl

theorem fills_texts {d : Nat} {texts : List (String × String)}
    (hnames : ∀ m ∈ texts, m.1 ∈ ["payload", "protected", "signature"]) (f : Form) :
    record.Fills d f (texts.map fun m => (m.1, .string m.2)) (texts.foldl setText f) := by
  induction texts generalizing f with
  | nil => exact .nil f
  | cons m texts ih =>
      obtain ⟨hname, hrest⟩ := List.forall_mem_cons.mp hnames
      exact (fills_text f hname).append (ih hrest (setText f m))

section

variable {protectedText payload signature : String} {texts : List (String × String)}
  (htexts : texts.Perm (flatTexts protectedText payload signature))

include htexts

theorem foldl_setText : texts.foldl setText {} =
    { payload := some payload
      single := { protectedText := some protectedText, signature := some signature } } := by
  -- Each text has a field of its own, so that any two may change places.
  have hcomm : ∀ a ∈ texts, ∀ b ∈ texts, ∀ f, setText (setText f a) b = setText (setText f b) a := by
    intro a ha b hb f
    have ha := htexts.mem_iff.mp ha
    have hb := htexts.mem_iff.mp hb
    simp only [flatTexts, List.mem_cons, List.not_mem_nil, or_false] at ha hb
    rcases ha with rfl | rfl | rfl <;> rcases hb with rfl | rfl | rfl <;> rfl
  rw [htexts.foldl_eq' hcomm]
  rfl

theorem deserialize_textObject : deserialize (textObject texts).compact =
    ofForm { payload := some payload
             single := { protectedText := some protectedText, signature := some signature } } := by
  have hnames : (texts.map (·.1)).Perm ["payload", "protected", "signature"] :=
    htexts.map (·.1)
  have hread : Json.document (record.read {}) (textObject texts).bytes =
      .ok (texts.foldl setText {}) := by
    refine Json.document_of_reads (Json.Record.reads_object (fills_texts ?_ _) ?_ (by decide))
    · exact fun m hm => hnames.mem_iff.mp (List.mem_map_of_mem hm)
    · rw [List.map_map]
      exact hnames.nodup_iff.mpr (by decide)
  rw [textObject, deserialize_object hread, foldl_setText htexts]

end

theorem ofForm_eq_ofCompact {protectedText payload signature : String} (hsome : signature ≠ "") :
    ofForm { payload := some payload
             single := { protectedText := some protectedText, signature := some signature } } =
      ofCompact protectedText payload signature := by
  have hempty : signature.isEmpty = false := by
    rw [← Bool.not_eq_true, String.isEmpty_iff]
    exact hsome
  simp only [ofForm, ofCompact, neededField, entryOf, hempty, Bool.false_eq_true, if_false,
    Option.getD_some]
  -- Both look at the payload first and at the signature last, so that also the errors agree.
  cases decodeField "payload" payload with
  | error error => rfl
  | ok payload =>
      cases Protected.decode protectedText with
      | error error => rfl
      | ok p => cases decodeField "signature" signature <;> rfl

theorem deserialize_segments {protectedText payload signature : String}
    (hbare : ∀ s ∈ [protectedText, payload, signature], Bare s)
    (hhead : protectedText.toList.head? ≠ some '\x7b') :
    deserialize (protectedText ++ "." ++ payload ++ "." ++ signature) =
      ofCompact protectedText payload signature := by
  have hjoined : protectedText ++ "." ++ payload ++ "." ++ signature =
      String.intercalate "." [protectedText, payload, signature] := by
    rw [← String.toList_inj, toList_joined]
    simp
  have hfirst : (String.intercalate "." [protectedText, payload, signature]).toList.head? ≠
      some '\x7b' := by
    rw [toList_joined]
    cases hchars : protectedText.toList with
    | nil => simp [hchars]
    | cons c cs =>
        rw [hchars] at hhead
        simpa [hchars] using hhead
  rw [hjoined, deserialize, trim_bare hbare, compactSegments_bare hbare (by simp) hfirst]

theorem ofForm_braced {protectedText payload signature : String}
    (hhead : protectedText.toList.head? = some '\x7b') (t : Jws) :
    ofForm { payload := some payload
             single := { protectedText := some protectedText, signature := some signature } } ≠
      .ok t := by
  intro h
  obtain ⟨_, _, h⟩ := bind_eq_ok h
  obtain ⟨_, h, _⟩ := bind_eq_ok h
  obtain ⟨p, hp, _⟩ := bind_eq_ok h
  have hwritten := Jwe.written_of_kept (Protected.kept_of_decode hp)
  rw [Protected.encoded_of_decode hp] at hwritten
  -- A brace is no character of base64url.
  have hbrace := hwritten _ (List.mem_of_head? hhead)
  exact (Jwe.symbolChars_spec _ (List.mem_cons_of_mem _ hbrace)).2 rfl

theorem ne_empty_of_ofCompact {protectedText payload signature : String} {t : Jws}
    (h : ofCompact protectedText payload signature = .ok t) : signature ≠ "" := by
  rintro rfl
  cases h

theorem deserialize_agree {protectedText payload signature : String}
    (hbare : ∀ s ∈ [protectedText, payload, signature], Bare s) {texts : List (String × String)}
    (htexts : texts.Perm (flatTexts protectedText payload signature)) :
    (protectedText.toList.head? ≠ some '\x7b' →
      (signature ≠ "" → deserialize (protectedText ++ "." ++ payload ++ "." ++ signature) =
        deserialize (textObject texts).compact) ∧
      ∀ t, deserialize (protectedText ++ "." ++ payload ++ "." ++ signature) = .ok t →
        deserialize (textObject texts).compact = .ok t) ∧
    (protectedText.toList.head? = some '\x7b' →
      ∀ t, deserialize (textObject texts).compact ≠ .ok t) := by
  rw [deserialize_textObject htexts]
  refine ⟨fun hhead => ?_, ofForm_braced⟩
  rw [deserialize_segments hbare hhead]
  refine ⟨fun hsome => (ofForm_eq_ofCompact hsome).symm, fun t ht => ?_⟩
  rw [ofForm_eq_ofCompact (ne_empty_of_ofCompact ht)]
  exact ht

def bracedText : String :=
  "\x7b\"payload\":\"\",\"signature\":\"AQ\",\"rest\":\""

theorem bare_bracedText : ∀ s ∈ [bracedText, "", "\"\x7d"], Bare s := by
  decide +kernel

theorem deserialize_agree_reordered :
    deserialize "e30.aGk.AQ" =
      deserialize (textObject [("signature", "AQ"), ("protected", "e30"),
        ("payload", "aGk")]).compact ∧
    (deserialize "e30.aGk.AQ").isOk = true ∧
    ∀ t, deserialize (textObject (flatTexts bracedText "" "\"\x7d")).compact ≠ .ok t := by
  refine ⟨?_, by decide +kernel, ?_⟩
  · have hbare : ∀ s ∈ ["e30", "aGk", "AQ"], Bare s := by decide +kernel
    exact ((deserialize_agree hbare (by decide +kernel)).1 (by decide +kernel)).1
      (by decide +kernel)
  · exact (deserialize_agree bare_bracedText (List.Perm.refl _)).2 (by decide +kernel)

theorem not_deserialize_agree :
    ¬ ∀ protectedText payload signature, (∀ s ∈ [protectedText, payload, signature], Bare s) →
      ∀ texts, texts.Perm (flatTexts protectedText payload signature) →
      ∀ t, deserialize (protectedText ++ "." ++ payload ++ "." ++ signature) = .ok t ↔
        deserialize (textObject texts).compact = .ok t := by
  intro h
  obtain ⟨t, ht⟩ := exists_of_isOk
    (x := deserialize (bracedText ++ "." ++ "" ++ "." ++ "\"\x7d")) (by decide +kernel)
  have hflat := (h bracedText "" "\"\x7d" bare_bracedText _ (List.Perm.refl _) t).mp ht
  have hrefused : (deserialize (textObject (flatTexts bracedText "" "\"\x7d")).compact).isOk =
      false := by
    decide +kernel
  rw [hflat] at hrefused
  cases hrefused

end JoseTokens.Jws
