import JoseTokens.Json.Skip
import JoseTokens.Proofs.Json.Grammar
import JoseTokens.Proofs.Outcome

namespace JoseTokens.Json

def Exact {α : Type} (reader : Bytes → Step α) (P : Bytes → α → Prop) : Prop :=
  ∀ bytes x rest, reader bytes = .ok (x, rest) ↔ ∃ text, bytes = text ++ rest ∧ P text x

theorem exact_codeUnit : Exact codeUnit CodeUnit := by
  intro bytes n rest
  constructor
  · intro h
    match bytes, h with
    | a :: b :: c :: d :: tail, h =>
        rw [codeUnit] at h
        split at h
        next ha hb hc hd =>
          cases h
          exact ⟨[a, b, c, d], rfl, .digits ha hb hc hd⟩
        · cases h
  · rintro ⟨_, rfl, ⟨ha, hb, hc, hd⟩⟩
    simp only [List.cons_append, List.nil_append, codeUnit, ha, hb, hc, hd]

inductive SecondHalf (high : Nat) : Bytes → Bytes → Prop
  | mk {digits : Bytes} {low : Nat} :
      CodeUnit digits low → IsLow low →
      SecondHalf high ('\\'.toUInt8 :: 'u'.toUInt8 :: digits) (codePoint (paired high low))

theorem exact_lowSurrogate (high : Nat) : Exact (lowSurrogate high) (SecondHalf high) := by
  intro bytes octets rest
  constructor
  · intro h
    match bytes, h with
    | b :: [], h =>
        rw [lowSurrogate] at h
        split at h <;> cases h
    | b :: u :: tail, h =>
        simp only [lowSurrogate] at h
        split at h
        · cases h
        next hb =>
          split at h
          · cases h
          next hu =>
            split at h
            · cases h
            next low left hunit =>
              split at h
              · cases h
              next hlow =>
                obtain ⟨rfl, rfl⟩ := Prod.mk.inj (Except.ok.inj h)
                obtain ⟨digits, rfl, hdigits⟩ := (exact_codeUnit _ _ _).mp hunit
                obtain rfl := not_not.mp hb
                obtain rfl := not_not.mp hu
                exact ⟨_, rfl, .mk hdigits (by simpa [IsLow] using hlow)⟩
  · rintro ⟨_, rfl, ⟨hdigits, hlow⟩⟩
    have hunit := (exact_codeUnit _ _ rest).mpr ⟨_, rfl, hdigits⟩
    have hrange : ¬ (_ < 0xDC00 ∨ 0xDFFF < _) := not_or.mpr ⟨hlow.1.not_gt, hlow.2.not_gt⟩
    simp only [List.cons_append, lowSurrogate, ne_eq, not_true_eq_false, if_false, hunit, hrange,
      paired]

theorem exact_escape : Exact escape Escaped := by
  intro bytes octets rest
  constructor
  · intro h
    match bytes, h with
    | b :: tail, h =>
        rw [escape] at h
        split at h
        next hb =>
          subst hb
          rw [unicodeEscape] at h
          split at h
          · cases h
          next n left hunit =>
            obtain ⟨digits, rfl, hdigits⟩ := (exact_codeUnit _ _ _).mp hunit
            split at h
            · cases h
            next hlow =>
              split at h
              next hhigh =>
                obtain ⟨_, rfl, ⟨hdigits', hsecond⟩⟩ := (exact_lowSurrogate n _ _ _).mp h
                exact ⟨_, by simp, .pair hdigits hhigh hdigits' hsecond⟩
              next hhigh =>
                cases h
                exact ⟨_, rfl, .single hdigits hhigh hlow⟩
        · split at h
          next c hc =>
            cases h
            exact ⟨[b], rfl, .short hc⟩
          · cases h
  · rintro ⟨_, rfl, hescaped⟩
    cases hescaped with
    | @short c b hc =>
        have hne : c ≠ 'u'.toUInt8 := by
          rintro rfl
          cases hc
        simp only [List.cons_append, List.nil_append, escape, if_neg hne, hc]
    | single hdigits hhigh hlow =>
        have hunit := (exact_codeUnit _ _ rest).mpr ⟨_, rfl, hdigits⟩
        simp only [IsHigh, IsLow] at hhigh hlow
        simp only [List.cons_append, escape, if_true, unicodeEscape, hunit, if_neg hlow,
          if_neg hhigh]
    | @pair digits digits' high low hdigits hhigh hdigits' hlow =>
        have hsecond := (exact_lowSurrogate high _ _ rest).mpr ⟨_, rfl, .mk hdigits' hlow⟩
        have hunit := (exact_codeUnit _ _
          ('\\'.toUInt8 :: 'u'.toUInt8 :: (digits' ++ rest))).mpr ⟨_, rfl, hdigits⟩
        have hnotLow : ¬ (0xDC00 ≤ high ∧ high ≤ 0xDFFF) := by
          have hbelow : high ≤ 0xDBFF := hhigh.2
          omega
        simp only [IsHigh] at hhigh
        simp only [List.cons_append] at hsecond
        simp only [List.cons_append, List.append_assoc, escape, if_true, unicodeEscape, hunit,
          if_neg hnotLow, if_pos hhigh, hsecond]

theorem spells_of_stringOctets {bound done bytes octets rest : Bytes}
    (h : stringOctets bound done bytes = .ok (octets, rest)) :
    ∃ body spelled, bytes = body ++ '"'.toUInt8 :: rest ∧ Spells body spelled ∧
      octets = done.reverse ++ spelled := by
  induction bound generalizing done bytes with
  | nil => cases h
  | cons y bound ih =>
      cases bytes with
      | nil => cases h
      | cons b bytes =>
          rw [stringOctets] at h
          split at h
          next hquote =>
            cases h
            exact ⟨[], [], by rw [hquote, List.nil_append], .nil, by simp⟩
          next hquote =>
            split at h
            next hslash =>
              split at h
              · cases h
              next cs left hescape =>
                obtain ⟨text, rfl, hescaped⟩ := (exact_escape _ _ _).mp hescape
                obtain ⟨body, spelled, rfl, hspells, rfl⟩ := ih h
                exact ⟨b :: (text ++ body), cs ++ spelled, by simp,
                  hslash ▸ .escape hescaped hspells,
                  by simp⟩
            next hslash =>
              split at h
              · cases h
              next hcontrol =>
                obtain ⟨body, spelled, rfl, hspells, rfl⟩ := ih h
                exact ⟨b :: body, b :: spelled, rfl, .plain ⟨hquote, hslash, hcontrol⟩ hspells,
                  by simp⟩

theorem stringOctets_of_spells {body spelled : Bytes} (h : Spells body spelled)
    (bound done rest : Bytes) (hbound : body.length < bound.length) :
    stringOctets bound done (body ++ '"'.toUInt8 :: rest) =
      .ok (done.reverse ++ spelled, rest) := by
  induction h generalizing bound done with
  | nil =>
      cases bound with
      | nil => simp at hbound
      | cons y bound => simp [stringOctets]
  | @plain b text octets hplain _ ih =>
      cases bound with
      | nil => simp at hbound
      | cons y bound =>
          obtain ⟨hquote, hslash, hcontrol⟩ := hplain
          rw [List.cons_append, stringOctets, if_neg hquote, if_neg hslash, if_neg hcontrol,
            ih bound (b :: done) (by simpa using hbound)]
          simp
  | @escape text octets more others hescaped _ ih =>
      cases bound with
      | nil => simp at hbound
      | cons y bound =>
          have hescape := (exact_escape _ _ (more ++ '"'.toUInt8 :: rest)).mpr
            ⟨_, rfl, hescaped⟩
          have hmore : more.length < bound.length := by
            simp only [List.length_cons, List.length_append] at hbound
            omega
          have hstep := stringOctets_escape y bound done text (more ++ '"'.toUInt8 :: rest) octets
            hescape
          rw [show '\\'.toUInt8 :: (text ++ more) ++ '"'.toUInt8 :: rest =
            '\\'.toUInt8 :: text ++ (more ++ '"'.toUInt8 :: rest) by simp, hstep, ih _ _ hmore]
          simp

theorem toText?_eq_some_iff {octets : Bytes} {s : String} :
    Bytes.toText? octets = some s ↔ octets = Bytes.ofText s := by
  constructor
  · intro h
    rw [Bytes.toText?, String.fromUTF8?] at h
    split at h
    · cases h
      rfl
    · cases h
  · rintro rfl
    exact Bytes.toText?_ofText s

theorem exact_stringBody :
    Exact stringBody fun text s => ∃ body, text = body ++ ['"'.toUInt8] ∧
      Spells body (Bytes.ofText s) := by
  intro bytes s rest
  constructor
  · intro h
    rw [stringBody] at h
    split at h
    · cases h
    next octets left hoctets =>
      split at h
      next text htext =>
        cases h
        obtain ⟨body, spelled, rfl, hspells, hspelled⟩ := spells_of_stringOctets hoctets
        obtain rfl : octets = spelled := by simpa using hspelled
        exact ⟨body ++ ['"'.toUInt8], by simp, body, rfl, toText?_eq_some_iff.mp htext ▸ hspells⟩
      · cases h
  · rintro ⟨_, rfl, body, rfl, hspells⟩
    have hread := stringOctets_of_spells hspells (body ++ '"'.toUInt8 :: rest) [] rest (by simp)
    rw [List.append_assoc, List.singleton_append, stringBody, hread]
    simp only [List.reverse_nil, List.nil_append, Bytes.toText?_ofText]

theorem skipEscape_eq_ok_iff {bytes rest : Bytes} :
    skipEscape bytes = .ok rest ↔ ∃ text, bytes = text ++ rest ∧ EscapeForm text := by
  constructor
  · intro h
    match bytes, h with
    | b :: tail, h =>
        rw [skipEscape] at h
        split at h
        next hb =>
          obtain ⟨⟨n, left⟩, hunit, rfl⟩ := map_eq_ok h
          obtain ⟨digits, rfl, hdigits⟩ := (exact_codeUnit _ _ _).mp hunit
          exact ⟨b :: digits, rfl, hb ▸ .unit hdigits⟩
        · split at h
          next hb =>
            cases h
            exact ⟨[b], rfl, .short hb⟩
          · cases h
  · rintro ⟨_, rfl, hform⟩
    cases hform with
    | @short c hc =>
        have hne : c ≠ 'u'.toUInt8 := by
          rintro rfl
          cases hc
        simp only [List.cons_append, List.nil_append, skipEscape, if_neg hne, hc, if_true]
    | unit hdigits =>
        have hunit := (exact_codeUnit _ _ rest).mpr ⟨_, rfl, hdigits⟩
        simp only [List.cons_append, skipEscape, if_true, hunit, Except.map]

theorem form_of_skipString {fuel : Nat} {bytes rest : Bytes}
    (h : skipString fuel bytes = .ok rest) :
    ∃ body, bytes = body ++ '"'.toUInt8 :: rest ∧ StringForm body := by
  induction fuel generalizing bytes with
  | zero => cases h
  | succ fuel ih =>
      cases bytes with
      | nil => cases h
      | cons b bytes =>
          rw [skipString] at h
          split at h
          next hquote =>
            cases h
            exact ⟨[], by rw [hquote, List.nil_append], .nil⟩
          next hquote =>
            split at h
            next hslash =>
              split at h
              · cases h
              next left hescape =>
                obtain ⟨text, rfl, hform⟩ := skipEscape_eq_ok_iff.mp hescape
                obtain ⟨body, rfl, hbody⟩ := ih h
                exact ⟨b :: (text ++ body), by simp, hslash ▸ .escape hform hbody⟩
            next hslash =>
              split at h
              · cases h
              next hcontrol =>
                obtain ⟨body, rfl, hbody⟩ := ih h
                exact ⟨b :: body, rfl, .plain ⟨hquote, hslash, hcontrol⟩ hbody⟩

theorem skipString_of_form {body : Bytes} (h : StringForm body) (fuel : Nat) (rest : Bytes)
    (hfuel : body.length < fuel) : skipString fuel (body ++ '"'.toUInt8 :: rest) = .ok rest := by
  induction h generalizing fuel with
  | nil =>
      cases fuel with
      | zero => cases hfuel
      | succ fuel => simp [skipString]
  | plain hplain _ ih =>
      cases fuel with
      | zero => cases hfuel
      | succ fuel =>
          obtain ⟨hquote, hslash, hcontrol⟩ := hplain
          rw [List.cons_append, skipString, if_neg hquote, if_neg hslash, if_neg hcontrol,
            ih fuel (by simpa using hfuel)]
  | @escape text more hform _ ih =>
      cases fuel with
      | zero => cases hfuel
      | succ fuel =>
          have hescape : skipEscape (text ++ (more ++ '"'.toUInt8 :: rest)) =
              .ok (more ++ '"'.toUInt8 :: rest) := skipEscape_eq_ok_iff.mpr ⟨_, rfl, hform⟩
          have hmore : more.length < fuel := by
            simp only [List.length_cons, List.length_append] at hfuel
            omega
          have hquote : '\\'.toUInt8 ≠ '"'.toUInt8 := by decide
          rw [List.cons_append, List.append_assoc, skipString, if_neg hquote, if_pos rfl, hescape]
          exact ih fuel hmore

end JoseTokens.Json
