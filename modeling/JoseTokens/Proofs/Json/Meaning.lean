import JoseTokens.Proofs.Json.Numerals
import JoseTokens.Proofs.Json.Parsing
import JoseTokens.Proofs.Json.Records

namespace JoseTokens.Json

theorem starts_stringText {text : Bytes} {s : String} (h : StringText text s) : Starts text := by
  obtain ⟨body, rfl, _⟩ := h
  exact ⟨rfl, by decide, by decide⟩

theorem starts_arrayText {text : Bytes} {items : List Bytes} (h : ArrayText text items) :
    Starts text := by
  obtain ⟨inner, rfl, _⟩ := h
  exact ⟨rfl, by decide, by decide⟩

theorem starts_objectOf {κ : Type} {name : Bytes → κ → Prop} {text : Bytes}
    {ms : List (κ × Bytes)} (h : ObjectOf name text ms) : Starts text := by
  obtain ⟨inner, rfl, _⟩ := h
  exact ⟨rfl, by decide, by decide⟩

theorem Numeral.unsigned_eq {n : Numeral} (h : n.WellFormed) :
    ∃ b tail, isDigit b = true ∧ n.unsigned = b :: tail := by
  rcases h.whole with hzero | ⟨⟨hne, hdigits⟩, _⟩
  · exact ⟨'0'.toUInt8, _, rfl, by rw [unsigned, hzero, List.singleton_append]⟩
  · cases hwhole : n.whole with
    | nil => exact absurd hwhole hne
    | cons b whole =>
        exact ⟨b, _, hdigits b (by simp [hwhole]), by rw [unsigned, hwhole, List.cons_append]⟩

theorem Numeral.starts {n : Numeral} (h : n.WellFormed) : Starts n.text := by
  rw [text]
  split
  · exact ⟨rfl, by decide, by decide⟩
  · obtain ⟨b, tail, hb, htext⟩ := unsigned_eq h
    rw [htext]
    exact ⟨isBlank_digit hb, digit_ne hb rfl, digit_ne hb rfl⟩

theorem Scalar.starts {text : Bytes} {v : Json} (h : Scalar text v) : Starts text := by
  cases h with
  | null => exact ⟨rfl, by decide, by decide⟩
  | true => exact ⟨rfl, by decide, by decide⟩
  | false => exact ⟨rfl, by decide, by decide⟩
  | number hn _ => exact Numeral.starts hn
  | string hs => exact starts_stringText hs

theorem Denotes.starts {d : Nat} {text : Bytes} {v : Json} (h : Denotes d text v) :
    Starts text := by
  cases d with
  | zero => exact Scalar.starts h
  | succ d =>
      rcases h with h | ⟨items, vs, htext, _⟩ | ⟨ms, vs, htext, _⟩
      · exact h.starts
      · exact starts_arrayText htext
      · exact starts_objectOf htext

theorem Denotes.of_scalar {d : Nat} {text : Bytes} {v : Json} (h : Scalar text v) :
    Denotes d text v := by
  cases d with
  | zero => exact h
  | succ d => exact .inl h

def PutStep (P : Bytes → Json → Prop) (name : String) (done : List (String × Json)) (text : Bytes)
    (next : List (String × Json)) : Prop :=
  ∃ v, P text v ∧ next = put name v done

theorem memberParses_put {item : Bytes → Step Json} {P : Bytes → Json → Prop}
    (h : Parses item P) : MemberParses (putMember item) (PutStep P) where
  takes := by
    rintro name s _ text gap gap' rest ⟨v, hv, rfl⟩ hgap hgap' hrest
    rw [putMember, colon_eq_ok_iff.mpr ⟨gap, hgap, rfl⟩]
    simp only [h.takes hv hgap' hrest]
  found := by
    intro name s t bytes rest hread
    rw [putMember] at hread
    split at hread
    · cases hread
    next left hcolon =>
      obtain ⟨gap, hgap, rfl⟩ := colon_eq_ok_iff.mp hcolon
      split at hread
      · cases hread
      next v left' hv =>
        cases hread
        obtain ⟨gap', text, hgap', rfl, hP⟩ := h.found hv
        exact ⟨gap, gap', text, hgap, hgap', rfl, v, hP, rfl⟩

theorem runs_put_iff {P : Bytes → Json → Prop} {ms : List (String × Bytes)}
    {done t : List (String × Json)} :
    Runs (PutStep P) done ms t ↔
      ∃ vs, MembersDenote P ms vs ∧ t = vs.foldl (fun done m => put m.1 m.2 done) done := by
  constructor
  · intro h
    induction h with
    | nil s => exact ⟨[], .nil, rfl⟩
    | @cons s _ u name text ms hstep _ ih =>
        obtain ⟨v, hv, rfl⟩ := hstep
        obtain ⟨vs, hvs, rfl⟩ := ih
        exact ⟨(name, v) :: vs, .cons ⟨rfl, hv⟩ hvs, rfl⟩
  · rintro ⟨vs, hvs, rfl⟩
    induction hvs generalizing done with
    | nil => exact .nil done
    | @cons m v ms vs hm _ ih =>
        obtain ⟨name, text⟩ := m
        rw [List.foldl_cons, hm.1]
        exact .cons ⟨v.2, hm.2, rfl⟩ ih

theorem members_of_objectText {item : Bytes → Step Json} {P : Bytes → Json → Prop}
    (h : Parses item P) {text : Bytes} {ms : List (String × Bytes)} (htext : ObjectText text ms)
    {vs : List (String × Json)} (hvs : MembersDenote P ms vs) :
    ∃ tail, text = '\x7b'.toUInt8 :: tail ∧
      ∀ rest, members (putMember item) [] (tail ++ rest) = .ok (putAll vs, rest) := by
  obtain ⟨inner, rfl, hinner⟩ := htext
  refine ⟨_, rfl, fun rest => (exact_members (memberParses_put h) [] _ _ _).mpr ?_⟩
  exact ⟨_, rfl, inner, ms, rfl, hinner, runs_put_iff.mpr ⟨vs, hvs, rfl⟩⟩

theorem objectText_of_members {item : Bytes → Step Json} {P : Bytes → Json → Prop}
    (h : Parses item P) {bytes rest : Bytes} {found : List (String × Json)}
    (hread : members (putMember item) [] bytes = .ok (found, rest)) :
    ∃ text ms vs, '\x7b'.toUInt8 :: bytes = text ++ rest ∧ ObjectText text ms ∧
      MembersDenote P ms vs ∧ found = putAll vs := by
  obtain ⟨_, rfl, inner, ms, rfl, hinner, hruns⟩ :=
    (exact_members (memberParses_put h) [] _ _ _).mp hread
  obtain ⟨vs, hvs, rfl⟩ := runs_put_iff.mp hruns
  exact ⟨_, ms, vs, rfl, ⟨inner, rfl, hinner⟩, hvs, rfl⟩

section

variable {α : Type} {item : Bytes → Step α} {P : Bytes → α → Prop} (h : Parses item P)

include h

theorem elements_of_arrayText {text : Bytes} {items : List Bytes} (htext : ArrayText text items)
    {xs : List α} (hxs : List.Forall₂ P items xs) :
    ∃ tail, text = '['.toUInt8 :: tail ∧
      ∀ rest, elements item (tail ++ rest) = .ok (xs, rest) := by
  obtain ⟨inner, rfl, hinner⟩ := htext
  refine ⟨_, rfl, fun rest => (exact_elements h _ _ _).mpr ?_⟩
  exact ⟨_, rfl, inner, items, rfl, hinner, hxs⟩

theorem arrayText_of_elements {bytes rest : Bytes} {xs : List α}
    (hread : elements item bytes = .ok (xs, rest)) :
    ∃ text items, '['.toUInt8 :: bytes = text ++ rest ∧ ArrayText text items ∧
      List.Forall₂ P items xs := by
  obtain ⟨_, rfl, inner, items, rfl, hinner, hxs⟩ := (exact_elements h _ _ _).mp hread
  exact ⟨_, items, rfl, ⟨inner, rfl, hinner⟩, hxs⟩

end

theorem passesBlanks_value (d : Nat) : PassesBlanks (value d) := by
  intro bytes
  rw [value, value, skipBlank_skipBlank]

theorem value_string {text rest : Bytes} {s : String} (h : StringText text s) (d : Nat) :
    value d (text ++ rest) = .ok (.string s, rest) := by
  obtain ⟨body, rfl, hspells⟩ := h
  rw [inQuotes, List.cons_append, value_quote, stringBody_text hspells]
  rfl

theorem value_numeral {n : Numeral} (hn : n.WellFormed) {v : Json} (hv : n.value? = some v)
    (d : Nat) : Reads (value d) n.text v := by
  intro rest hrest
  have hread := n.number_text hn (hrest.ends n.fraction n.exponent)
  rw [hv] at hread
  rw [Numeral.text]
  cases hnegative : n.negative with
  | true =>
      rw [hnegative] at hread
      rw [if_pos rfl, List.cons_append, value_minus, hread]
  | false =>
      obtain ⟨b, tail, hb, htext⟩ := Numeral.unsigned_eq hn
      rw [hnegative, htext] at hread
      rw [if_neg Bool.false_ne_true, htext, List.cons_append, value_digit hb]
      exact hread

theorem reads_scalar {text : Bytes} {v : Json} (h : Scalar text v) (d : Nat) :
    Reads (value d) text v := by
  cases h with
  | null => exact reads_null d
  | true => exact reads_bool true d
  | false => exact reads_bool false d
  | number hn hv => exact value_numeral hn hv d
  | string hs => exact fun rest _ => value_string hs d

theorem parses_value_of (d : Nat) (h : ∀ n, d = n + 1 → Parses (value n) (Denotes n)) :
    Parses (value d) (Denotes d) := by
  refine .of_reads (passesBlanks_value d) Denotes.starts ?_ ?_ (by simp [value, skipBlank])
  · intro text v htext
    cases d with
    | zero => exact reads_scalar htext 0
    | succ d =>
        have hvalue := h d rfl
        rcases htext with hscalar | ⟨items, vs, htext, hvs, rfl⟩ | ⟨ms, vs, htext, hvs, rfl⟩
        · exact reads_scalar hscalar (d + 1)
        · obtain ⟨tail, rfl, hread⟩ := elements_of_arrayText hvalue htext hvs
          intro rest _
          rw [List.cons_append, value_bracket, hread]
          rfl
        · obtain ⟨tail, rfl, hread⟩ := members_of_objectText hvalue htext hvs
          intro rest _
          rw [List.cons_append, value_brace, hread]
          rfl
  · intro b tail rest v hb hread
    rw [value, skipBlank_cons hb] at hread
    simp only at hread
    split at hread
    next hletter =>
      obtain ⟨_, hword, heq⟩ := map_eq_ok hread
      cases heq
      exact ⟨_, by rw [hletter, word_eq_ok_iff.mp hword]; rfl, .of_scalar .null⟩
    split at hread
    next hletter =>
      obtain ⟨_, hword, heq⟩ := map_eq_ok hread
      cases heq
      exact ⟨_, by rw [hletter, word_eq_ok_iff.mp hword]; rfl, .of_scalar .true⟩
    split at hread
    next hletter =>
      obtain ⟨_, hword, heq⟩ := map_eq_ok hread
      cases heq
      exact ⟨_, by rw [hletter, word_eq_ok_iff.mp hword]; rfl, .of_scalar .false⟩
    split at hread
    next hminus =>
      obtain ⟨n, hnegative, hn, rfl, hv⟩ := exists_of_number hread
      exact ⟨n.text, by rw [Numeral.text, if_pos hnegative, hminus]; rfl,
        .of_scalar (.number hn hv)⟩
    split at hread
    next hdigit =>
      obtain ⟨n, hnegative, hn, htext, hv⟩ := exists_of_number hread
      exact ⟨n.text, by rw [Numeral.text, hnegative, if_neg Bool.false_ne_true, htext],
        .of_scalar (.number hn hv)⟩
    split at hread
    next hquote =>
      obtain ⟨⟨s, _⟩, hbody, heq⟩ := map_eq_ok hread
      cases heq
      obtain ⟨_, rfl, body, rfl, hspells⟩ := (exact_stringBody _ _ _).mp hbody
      exact ⟨inQuotes body, by rw [hquote]; rfl, .of_scalar (.string ⟨body, rfl, hspells⟩)⟩
    split at hread
    next hbracket =>
      cases d with
      | zero => cases hread
      | succ d =>
          obtain ⟨⟨xs, _⟩, hitems, heq⟩ := map_eq_ok hread
          cases heq
          obtain ⟨text, items, htext, harray, hxs⟩ := arrayText_of_elements (h d rfl) hitems
          exact ⟨text, by rw [hbracket, htext], .inr (.inl ⟨items, xs, harray, hxs, rfl⟩)⟩
    split at hread
    next hbrace =>
      cases d with
      | zero => cases hread
      | succ d =>
          obtain ⟨⟨found, _⟩, hmembers, heq⟩ := map_eq_ok hread
          cases heq
          obtain ⟨text, ms, vs, htext, hobject, hvs, rfl⟩ :=
            objectText_of_members (h d rfl) hmembers
          exact ⟨text, by rw [hbrace, htext], .inr (.inr ⟨ms, vs, hobject, hvs, rfl⟩)⟩
    · cases hread

theorem parses_value (d : Nat) : Parses (value d) (Denotes d) := by
  induction d with
  | zero => exact parses_value_of 0 fun n hn => absurd hn (Nat.succ_ne_zero n).symm
  | succ d ih =>
      refine parses_value_of (d + 1) fun n hn => ?_
      obtain rfl := Nat.succ.inj hn
      exact ih

theorem parses_text (d : Nat) : Parses (text d) StringText := by
  refine .of_reads ?_ starts_stringText ?_ ?_ (by simp [text, skipBlank])
  · intro bytes
    rw [text, text, skipBlank_skipBlank]
  · rintro _ s ⟨body, rfl, hspells⟩ rest _
    rw [inQuotes, List.cons_append, text, skipBlank_cons (b := '"'.toUInt8) rfl]
    simp only [if_true, stringBody_text hspells]
  · intro b tail rest s hb hread
    rw [text, skipBlank_cons hb] at hread
    simp only at hread
    split at hread
    next hquote =>
      obtain ⟨_, rfl, body, rfl, hspells⟩ := (exact_stringBody _ _ _).mp hread
      exact ⟨inQuotes body, by rw [hquote]; rfl, body, rfl, hspells⟩
    · cases hread

theorem parses_natural (bound : Nat) (wanted : String) (d : Nat) :
    Parses (natural bound wanted d) fun text n => n < bound ∧ Denotes 0 text (.int n) where
  starts := fun ⟨_, htext⟩ => htext.starts
  takes := by
    rintro text gap rest n ⟨hn, htext⟩ hgap hrest
    have hrange : (0 : Int) ≤ n ∧ (n : Int) < bound := by omega
    rw [natural, (parses_value 0).takes htext hgap hrest]
    simp only [if_pos hrange, Int.toNat_natCast]
  found := by
    intro bytes rest n hread
    rw [natural] at hread
    split at hread
    next v left hvalue =>
      split at hread
      next hrange =>
        cases hread
        obtain ⟨gap, text, hgap, hbytes, htext⟩ := (parses_value 0).found hvalue
        have hv : (v.toNat : Int) = v := Int.toNat_of_nonneg hrange.1
        exact ⟨gap, text, hgap, hbytes, by omega, by rwa [hv]⟩
      · cases hread
    · cases hread

def nullText : Bytes :=
  Bytes.ofText "null"

def OptionText {α : Type} (P : Bytes → α → Prop) (text : Bytes) : Option α → Prop
  | none => text = nullText
  | some x => P text x

theorem parses_optional {α : Type} {reader : Reader α} {d : Nat} {P : Bytes → α → Prop}
    (h : Parses (reader d) P) (hother : ∀ {text x}, P text x → StartsOther text) :
    Parses (optional reader d) (OptionText P) := by
  refine .of_reads ?_ ?_ ?_ ?_ (by simp [optional, skipBlank])
  · intro bytes
    rw [optional, optional, skipBlank_skipBlank]
  · intro text x htext
    cases x with
    | none =>
        rw [show text = nullText from htext]
        exact ⟨rfl, by decide, by decide⟩
    | some x => exact h.starts htext
  · intro text x htext
    cases x with
    | none =>
        intro rest _
        have hnull : text ++ rest = 'n'.toUInt8 :: (Bytes.ofText "ull" ++ rest) := by
          rw [show text = nullText from htext]
          rfl
        rw [hnull, optional, skipBlank_cons (b := 'n'.toUInt8) rfl]
        simp only [if_true, word_append]
        rfl
    | some x => exact reads_optional (h.reads htext) (hother htext)
  · intro b tail rest x hb hread
    rw [optional, skipBlank_cons hb] at hread
    simp only at hread
    split at hread
    next hletter =>
      obtain ⟨_, hword, heq⟩ := map_eq_ok hread
      cases heq
      exact ⟨nullText, by rw [hletter, word_eq_ok_iff.mp hword]; rfl, rfl⟩
    next hletter =>
      obtain ⟨⟨y, _⟩, hy, heq⟩ := map_eq_ok hread
      cases heq
      obtain ⟨gap, text, hgap, hbytes, hP⟩ := h.found hy
      cases gap with
      | nil => exact ⟨text, hbytes, hP⟩
      | cons c gap =>
          have hc : isBlank c = true := hgap c List.mem_cons_self
          rw [← (List.cons.inj hbytes).1, hb] at hc
          cases hc

theorem startsOther_stringText {text : Bytes} {s : String} (h : StringText text s) :
    StartsOther text := by
  obtain ⟨body, rfl, _⟩ := h
  exact ⟨rfl, by decide⟩

theorem parses_optional_text (d : Nat) :
    Parses (optional text d) (OptionText StringText) :=
  parses_optional (parses_text d) startsOther_stringText

theorem parses_list {α : Type} {reader : Reader α} {d : Nat} {P : Bytes → α → Prop}
    (h : Parses (reader d) P) :
    Parses (list reader (d + 1)) fun text xs =>
      ∃ items, ArrayText text items ∧ List.Forall₂ P items xs := by
  refine .of_reads ?_ (fun ⟨_, htext, _⟩ => starts_arrayText htext) ?_ ?_
    (by simp [list, skipBlank])
  · intro bytes
    rw [list, list, skipBlank_skipBlank]
  · rintro text xs ⟨items, htext, hxs⟩ rest _
    obtain ⟨tail, rfl, hread⟩ := elements_of_arrayText h htext hxs
    rw [List.cons_append, list, skipBlank_cons (b := '['.toUInt8) rfl]
    simp only [if_true, hread]
  · intro b tail rest xs hb hread
    rw [list, skipBlank_cons hb] at hread
    simp only at hread
    split at hread
    next hbracket =>
      obtain ⟨text, items, htext, harray, hxs⟩ := arrayText_of_elements h hread
      exact ⟨text, by rw [hbracket, htext], items, harray, hxs⟩
    · cases hread

theorem not_scalar_object {text : Bytes} {ms : List (String × Json)} :
    ¬ Scalar text (.object ms) := by
  rintro (_ | _ | _ | ⟨_, hv⟩ | _)
  rw [Numeral.value?] at hv
  split at hv
  · cases hv
  · obtain ⟨_, _, heq⟩ := Option.map_eq_some_iff.mp hv
    cases heq

theorem parses_map (d : Nat) : Parses (map d) fun text ms => Denotes d text (.object ms) := by
  refine .of_reads ?_ Denotes.starts ?_ ?_ (by simp [map, skipBlank])
  · intro bytes
    rw [map, map, skipBlank_skipBlank]
  · intro text members htext rest _
    cases d with
    | zero => exact absurd htext not_scalar_object
    | succ d =>
        rcases htext with hscalar | ⟨_, _, _, _, heq⟩ | ⟨ms, vs, htext, hvs, heq⟩
        · exact absurd hscalar not_scalar_object
        · cases heq
        · cases heq
          obtain ⟨tail, rfl, hread⟩ := members_of_objectText (parses_value d) htext hvs
          rw [List.cons_append, map, skipBlank_cons (b := '\x7b'.toUInt8) rfl]
          simp only [if_true, hread]
  · intro b tail rest members hb hread
    rw [map, skipBlank_cons hb] at hread
    simp only at hread
    split at hread
    next hbrace =>
      cases d with
      | zero => cases hread
      | succ d =>
          obtain ⟨text, ms, vs, htext, hobject, hvs, rfl⟩ :=
            objectText_of_members (parses_value d) hread
          exact ⟨text, by rw [hbrace, htext], .inr (.inr ⟨ms, vs, hobject, hvs, rfl⟩)⟩
    · cases hread

end JoseTokens.Json
