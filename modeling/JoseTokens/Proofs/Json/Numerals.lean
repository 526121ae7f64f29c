import JoseTokens.Proofs.Json.Spelling
import JoseTokens.Proofs.Json.Values

namespace JoseTokens.Json

section

variable {digits : Bytes} (hdigits : ∀ b ∈ digits, isDigit b = true) {more : Bytes}
  (hmore : startsWithDigit more = false)

include hdigits hmore

theorem takeWhile_digits : (digits ++ more).takeWhile isDigit = digits := by
  rw [List.takeWhile_append_of_pos hdigits]
  cases more with
  | nil => simp
  | cons b more => simp [show isDigit b = false from hmore]

theorem dropWhile_digits : (digits ++ more).dropWhile isDigit = more := by
  rw [List.dropWhile_append_of_pos hdigits]
  cases more with
  | nil => rfl
  | cons b more => simp [show isDigit b = false from hmore]

theorem takeDigits_append (n count : Nat) :
    takeDigits n count (digits ++ more) =
      ((takeDigits n count digits).1, (takeDigits n count digits).2.1,
        (takeDigits n count digits).2.2 ++ more) := by
  induction digits generalizing n count with
  | nil =>
      cases more with
      | nil => rfl
      | cons b more => simp [takeDigits, show isDigit b = false from hmore]
  | cons b digits ih =>
      rw [List.cons_append, takeDigits, takeDigits]
      split
      · exact ih (fun c hc => hdigits c (List.mem_cons_of_mem _ hc)) _ _
      · rfl

end

theorem digits_takeDigits {digits : Bytes} (h : ∀ b ∈ digits, isDigit b = true) (n count : Nat) :
    ∀ b ∈ (takeDigits n count digits).2.2, isDigit b = true := by
  induction digits generalizing n count with
  | nil => simp [takeDigits]
  | cons b digits ih =>
      rw [takeDigits]
      split
      · exact ih (fun c hc => h c (List.mem_cons_of_mem _ hc)) _ _
      · exact h

theorem startsWithDigit_append {digits : Bytes} (h : Digits digits) (more : Bytes) :
    startsWithDigit (digits ++ more) = true := by
  obtain ⟨hne, hdigits⟩ := h
  cases digits with
  | nil => exact absurd rfl hne
  | cons b digits => exact hdigits b List.mem_cons_self

theorem startsWithDigit_dropWhile (bytes : Bytes) :
    startsWithDigit (bytes.dropWhile isDigit) = false := by
  cases hrest : bytes.dropWhile isDigit with
  | nil => rfl
  | cons b rest =>
      have hhead := List.head?_dropWhile_not isDigit bytes
      simpa [hrest, startsWithDigit] using hhead

theorem exists_digits {bytes : Bytes} (h : startsWithDigit bytes = true) :
    ∃ digits more, bytes = digits ++ more ∧ Digits digits ∧ startsWithDigit more = false := by
  refine ⟨bytes.takeWhile isDigit, bytes.dropWhile isDigit, List.takeWhile_append_dropWhile.symm,
    ⟨?_, fun _ hb => List.mem_takeWhile_imp hb⟩, startsWithDigit_dropWhile bytes⟩
  cases bytes with
  | nil => cases h
  | cons b bytes => simp [show isDigit b = true from h]

def exponentText (e : Option Exponent) : Bytes :=
  (e.map Exponent.text).getD []

def fractionText (fraction : Option Bytes) : Bytes :=
  (fraction.map fun digits => '.'.toUInt8 :: digits).getD []

def EndsFraction : Bytes → Prop
  | [] => True
  | b :: _ => isExponentLetter b = false

theorem exponentPart_text {e : Exponent} (h : e.WellFormed) (negative : Bool) (digits : Nat)
    (k : Int) {rest : Bytes} (hrest : startsWithDigit rest = false) :
    exponentPart negative digits k (e.sign ++ (e.digits ++ rest)) =
      doubleOf negative digits (k + e.value) rest := by
  obtain ⟨_, hsign, hdigits⟩ := h
  have htake := takeWhile_digits hdigits.2 hrest
  have hdrop := dropWhile_digits hdigits.2 hrest
  have hstart := startsWithDigit_append hdigits rest
  cases htext : e.digits ++ rest with
  | nil => simp [htext, startsWithDigit] at hstart
  | cons b tail =>
      rw [htext] at htake hdrop hstart
      have hb : isDigit b = true := hstart
      rw [List.dropWhile_cons_of_pos hb] at hdrop
      have hminus : ['+'.toUInt8] ≠ ['-'.toUInt8] := by decide
      have hne : '-'.toUInt8 ≠ '+'.toUInt8 := by decide
      rcases hsign with hsign | hsign | hsign
      · have hplus : b ≠ '+'.toUInt8 := digit_ne hb rfl
        have hdown : b ≠ '-'.toUInt8 := digit_ne hb rfl
        simp only [hsign, List.nil_append, exponentPart, if_neg hplus, if_neg hdown, hb, if_true,
          Bool.false_eq_true, if_false, htake, hdrop, Exponent.value, List.ne_cons_self]
      · simp only [hsign, List.cons_append, List.nil_append, exponentPart, if_true, hb,
          Bool.false_eq_true, if_false, htake, hdrop, Exponent.value, hminus]
      · simp only [hsign, List.cons_append, List.nil_append, exponentPart, if_neg hne, if_true, hb,
          htake, hdrop, Exponent.value]
        rfl

theorem skipExponent_text {e : Exponent} (h : e.WellFormed) {rest : Bytes}
    (hrest : startsWithDigit rest = false) :
    skipExponent (e.sign ++ (e.digits ++ rest)) = .ok rest := by
  obtain ⟨_, hsign, hdigits⟩ := h
  have hdrop := dropWhile_digits hdigits.2 hrest
  have hstart := startsWithDigit_append hdigits rest
  have hskip : skipSomeDigits (e.digits ++ rest) = .ok rest := by
    rw [skipSomeDigits, if_pos hstart, hdrop]
  rcases hsign with hsign | hsign | hsign
  · cases htext : e.digits ++ rest with
    | nil => simp [htext, startsWithDigit] at hstart
    | cons b tail =>
        rw [htext] at hskip hstart
        have hb : isDigit b = true := hstart
        have hnot : ¬ (b = '+'.toUInt8 ∨ b = '-'.toUInt8) :=
          not_or.mpr ⟨digit_ne hb rfl, digit_ne hb rfl⟩
        rw [hsign, List.nil_append, skipExponent, if_neg hnot, hskip]
  · rw [hsign, List.singleton_append, skipExponent, if_pos (.inl rfl), hskip]
  · rw [hsign, List.singleton_append, skipExponent, if_pos (.inr rfl), hskip]

theorem exists_exponent_of_skip {letter : UInt8} (hletter : isExponentLetter letter = true)
    {bytes rest : Bytes} (h : skipExponent bytes = .ok rest) :
    ∃ e : Exponent, e.WellFormed ∧ letter :: bytes = e.text ++ rest ∧
      startsWithDigit rest = false := by
  have hsome {tail : Bytes} (h : skipSomeDigits tail = .ok rest) : ∃ digits, Digits digits ∧
      tail = digits ++ rest ∧ startsWithDigit rest = false := by
    rw [skipSomeDigits] at h
    split at h
    next hstart =>
      obtain ⟨digits, more, rfl, hdigits, hmore⟩ := exists_digits hstart
      rw [dropWhile_digits hdigits.2 hmore] at h
      cases h
      exact ⟨digits, hdigits, rfl, hmore⟩
    · cases h
  cases bytes with
  | nil => cases h
  | cons b bytes =>
      rw [skipExponent] at h
      split at h
      next hb =>
        obtain ⟨digits, hdigits, rfl, hrest⟩ := hsome h
        refine ⟨⟨letter, [b], digits⟩, ⟨hletter, ?_, hdigits⟩, rfl, hrest⟩
        rcases hb with rfl | rfl
        · exact .inr (.inl rfl)
        · exact .inr (.inr rfl)
      · obtain ⟨digits, hdigits, htext, hrest⟩ := hsome h
        exact ⟨⟨letter, [], digits⟩, ⟨hletter, .inl rfl, hdigits⟩, by rw [htext]; rfl, hrest⟩

structure Ends (fraction : Option Bytes) (e : Option Exponent) (rest : Bytes) : Prop where
  digit : startsWithDigit rest = false
  letter : e = none → EndsFraction rest
  point : e = none → fraction = none → rest.head? ≠ some '.'.toUInt8

theorem Closed.ends {rest : Bytes} (h : Closed rest) (fraction : Option Bytes)
    (e : Option Exponent) : Ends fraction e rest := by
  cases rest with
  | nil => exact ⟨rfl, fun _ => trivial, fun _ _ => by simp⟩
  | cons b rest => exact ⟨h.1, fun _ => h.2.2, fun _ _ => by simpa using h.2.1⟩

theorem isDigit_letter {b : UInt8} (h : isExponentLetter b = true) : isDigit b = false := by
  simp only [isExponentLetter, Bool.or_eq_true, beq_iff_eq] at h
  rcases h with rfl | rfl <;> rfl

theorem startsWithDigit_exponentText {e : Option Exponent} (he : ∀ x ∈ e, x.WellFormed)
    {fraction : Option Bytes} {rest : Bytes} (hrest : Ends fraction e rest) :
    startsWithDigit (exponentText e ++ rest) = false := by
  cases e with
  | none => exact hrest.digit
  | some e => exact isDigit_letter (he e rfl).letter

theorem fractionPart_text {digits : Bytes} (hdigits : Digits digits) {e : Option Exponent}
    (he : ∀ x ∈ e, x.WellFormed) (negative : Bool) (whole : Nat) (k : Int) {rest : Bytes}
    (hrest : Ends (some digits) e rest) :
    fractionPart negative whole k (digits ++ (exponentText e ++ rest)) =
      doubleOf negative (takeDigits whole 0 digits).1
        (k - (takeDigits whole 0 digits).2.1 + (e.map Exponent.value).getD 0) rest := by
  have hmore := startsWithDigit_exponentText he hrest
  have hdropped := dropWhile_digits (digits_takeDigits hdigits.2 whole 0) hmore
  rw [fractionPart, if_pos (startsWithDigit_append hdigits _), takeDigits_append hdigits.2 hmore]
  simp only [hdropped]
  cases e with
  | none =>
      cases rest with
      | nil => simp [exponentText]
      | cons b rest =>
          have hletter : isExponentLetter b = false := hrest.letter rfl
          simp [exponentText, hletter]
  | some e =>
      have hletter : isExponentLetter e.letter = true := (he e rfl).letter
      have hread := exponentPart_text (he e rfl) negative (takeDigits whole 0 digits).1
        (k - (takeDigits whole 0 digits).2.1) hrest.digit
      simpa [exponentText, Exponent.text, hletter] using hread

def placed (negative : Bool) (whole dropped : Nat) (fraction : Option Bytes) (e : Option Exponent)
    (rest : Bytes) : Step Json :=
  if fraction = none ∧ e = none then wholeNumber negative whole dropped rest
  else doubleOf negative (takeDigits whole 0 (fraction.getD [])).1
    (dropped - (takeDigits whole 0 (fraction.getD [])).2.1 + (e.map Exponent.value).getD 0) rest

theorem afterWhole_text {fraction : Option Bytes} (hfraction : ∀ digits ∈ fraction, Digits digits)
    {e : Option Exponent} (he : ∀ x ∈ e, x.WellFormed) (negative : Bool) (whole dropped : Nat)
    {rest : Bytes} (hrest : Ends fraction e rest) :
    afterWhole negative whole dropped (fractionText fraction ++ (exponentText e ++ rest)) =
      placed negative whole dropped fraction e rest := by
  cases fraction with
  | some digits =>
      have hread := fractionPart_text (hfraction digits rfl) he negative whole dropped hrest
      simp only [fractionText, Option.map_some, Option.getD_some, List.cons_append, afterWhole,
        if_true, hread, placed, reduceCtorEq, false_and, if_false]
  | none =>
      cases e with
      | none =>
          simp only [fractionText, exponentText, Option.map_none, Option.getD_none,
            List.nil_append, placed, and_self, if_true]
          cases rest with
          | nil => rfl
          | cons b rest =>
              have hletter : isExponentLetter b = false := hrest.letter rfl
              have hpoint : b ≠ '.'.toUInt8 := by simpa using hrest.point rfl rfl
              simp [afterWhole, hletter, hpoint]
      | some e =>
          have hletter : isExponentLetter e.letter = true := (he e rfl).letter
          have hpoint : e.letter ≠ '.'.toUInt8 := by
            intro heq
            rw [heq] at hletter
            cases hletter
          have hread := exponentPart_text (he e rfl) negative whole dropped hrest.digit
          simp only [fractionText, exponentText, Exponent.text, Option.map_none, Option.getD_none,
            Option.map_some, Option.getD_some, List.nil_append, List.cons_append,
            List.append_assoc, afterWhole, if_neg hpoint, hletter, if_true, hread, placed,
            reduceCtorEq, and_false, if_false, takeDigits, Int.ofNat_zero, Int.sub_zero]

theorem skipAfterWhole_text {fraction : Option Bytes}
    (hfraction : ∀ digits ∈ fraction, Digits digits) {e : Option Exponent}
    (he : ∀ x ∈ e, x.WellFormed) {rest : Bytes} (hrest : Ends fraction e rest) :
    skipAfterWhole (fractionText fraction ++ (exponentText e ++ rest)) = .ok rest := by
  have hfractionPart : skipAfterFraction (exponentText e ++ rest) = .ok rest := by
    cases e with
    | none =>
        cases rest with
        | nil => rfl
        | cons b rest =>
            have hletter : isExponentLetter b = false := hrest.letter rfl
            simp [exponentText, skipAfterFraction, hletter]
    | some e =>
        have hletter : isExponentLetter e.letter = true := (he e rfl).letter
        have hskip := skipExponent_text (he e rfl) hrest.digit
        simpa [exponentText, Exponent.text, skipAfterFraction, hletter] using hskip
  cases fraction with
  | some digits =>
      have hdigits := hfraction digits rfl
      have hmore := startsWithDigit_exponentText he hrest
      simp only [fractionText, Option.map_some, Option.getD_some, List.cons_append, skipAfterWhole,
        if_true, skipSomeDigits, startsWithDigit_append hdigits, dropWhile_digits hdigits.2 hmore,
        hfractionPart]
  | none =>
      rw [fractionText, Option.map_none, Option.getD_none, List.nil_append]
      cases htext : exponentText e ++ rest with
      | nil =>
          rw [htext] at hfractionPart
          exact hfractionPart
      | cons b tail =>
          have hpoint : b ≠ '.'.toUInt8 := by
            rintro rfl
            cases e with
            | none =>
                have hhead : rest = '.'.toUInt8 :: tail := htext
                exact hrest.point rfl rfl (by rw [hhead, List.head?_cons])
            | some e =>
                have hletter := (he e rfl).letter
                rw [(List.cons.inj htext).1] at hletter
                cases hletter
          rw [skipAfterWhole, if_neg hpoint, ← htext, hfractionPart]

theorem exists_ends_of_skip {bytes rest : Bytes} (h : skipAfterWhole bytes = .ok rest)
    (hstart : startsWithDigit bytes = false) :
    ∃ fraction e, (∀ digits ∈ fraction, Digits digits) ∧ (∀ x ∈ e, x.WellFormed) ∧
      bytes = fractionText fraction ++ (exponentText e ++ rest) ∧ Ends fraction e rest := by
  have hexponent {tail : Bytes} (h : skipAfterFraction tail = .ok rest)
      (hstart : startsWithDigit tail = false) : ∃ e : Option Exponent,
      (∀ x ∈ e, x.WellFormed) ∧ tail = exponentText e ++ rest ∧
        startsWithDigit rest = false ∧ (e = none → EndsFraction rest) := by
    cases tail with
    | nil =>
        cases h
        exact ⟨none, by simp, rfl, rfl, fun _ => trivial⟩
    | cons b tail =>
        rw [skipAfterFraction] at h
        split at h
        next hletter =>
          obtain ⟨e, he, htext, hrest⟩ := exists_exponent_of_skip hletter h
          exact ⟨some e, by simpa using he, htext, hrest, by simp⟩
        next hletter =>
          cases h
          exact ⟨none, by simp, rfl, hstart, fun _ => by simpa [EndsFraction] using hletter⟩
  cases bytes with
  | nil =>
      cases h
      exact ⟨none, none, by simp, by simp, rfl, rfl, fun _ => trivial, by simp⟩
  | cons b bytes =>
      rw [skipAfterWhole] at h
      split at h
      next hpoint =>
        subst hpoint
        split at h
        · cases h
        next left hdigits =>
          rw [skipSomeDigits] at hdigits
          split at hdigits
          next hfirst =>
            obtain ⟨digits, more, rfl, hall, hmore⟩ := exists_digits hfirst
            rw [dropWhile_digits hall.2 hmore] at hdigits
            cases hdigits
            obtain ⟨e, he, htext, hrest, hletter⟩ := hexponent h hmore
            exact ⟨some digits, e, by simpa using hall, he, by rw [htext]; simp [fractionText],
              hrest, hletter, by simp⟩
          · cases hdigits
      next hpoint =>
        obtain ⟨e, he, htext, hrest, hletter⟩ := hexponent h hstart
        refine ⟨none, e, by simp, he, htext, hrest, hletter, ?_⟩
        rintro rfl -
        rw [← show b :: bytes = rest from htext]
        simpa using hpoint

theorem startsWithDigit_fractionText {fraction : Option Bytes} {e : Option Exponent}
    (he : ∀ x ∈ e, x.WellFormed) {rest : Bytes} (hrest : Ends fraction e rest) :
    startsWithDigit (fractionText fraction ++ (exponentText e ++ rest)) = false := by
  cases fraction with
  | none => exact startsWithDigit_exponentText he hrest
  | some digits => rfl

theorem takeDigits_count (n count : Nat) (digits : Bytes) :
    (takeDigits n count digits).1 = (takeDigits n 0 digits).1 ∧
      (takeDigits n count digits).2.2 = (takeDigits n 0 digits).2.2 := by
  induction digits generalizing n count with
  | nil => exact ⟨rfl, rfl⟩
  | cons b digits ih =>
      rw [takeDigits, takeDigits]
      split
      · rw [(ih _ (count + 1)).1, (ih _ (count + 1)).2, (ih _ (0 + 1)).1, (ih _ (0 + 1)).2]
        exact ⟨rfl, rfl⟩
      · exact ⟨rfl, rfl⟩

theorem digitValue_lt {b : UInt8} (h : isDigit b = true) : digitValue b < 10 := by
  simp only [isDigit, Bool.and_eq_true, decide_eq_true_eq, UInt8.le_iff_toNat_le] at h
  have hnine : '9'.toUInt8.toNat = 57 := rfl
  rw [digitValue]
  omega

theorem takeDigits_first {b : UInt8} (h : isDigit b = true) (digits : Bytes) :
    (takeDigits 0 0 (b :: digits)).1 = (takeDigits (digitValue b) 0 digits).1 ∧
      (takeDigits 0 0 (b :: digits)).2.2 = (takeDigits (digitValue b) 0 digits).2.2 := by
  have hsmall : 0 * 10 + digitValue b < Nat.pow 2 64 := by
    have hlt := digitValue_lt h
    have hpow : (10 : Nat) < Nat.pow 2 64 := by decide
    omega
  rw [takeDigits, if_pos ⟨h, hsmall⟩, Nat.zero_mul, Nat.zero_add]
  exact takeDigits_count _ _ _

namespace Numeral

variable {n : Numeral}

theorem unsigned_append (n : Numeral) (rest : Bytes) : n.unsigned ++ rest =
    n.whole ++ (fractionText n.fraction ++ (exponentText n.exponent ++ rest)) := by
  simp [unsigned, fractionText, exponentText]

theorem placed_value? (n : Numeral) (rest : Bytes) :
    placed n.negative n.counted.1 n.counted.2.2.length n.fraction n.exponent rest =
      match n.value? with
      | some v => .ok (v, rest)
      | none => .error .numberOutOfRange := by
  have hdouble : doubleOf n.negative n.scaled.1 n.scaled.2 rest =
      match (Double.ofDecimal? n.negative n.scaled.1 n.scaled.2).map Json.double with
      | some v => .ok (v, rest)
      | none => .error .numberOutOfRange := by
    rw [doubleOf]
    cases Double.ofDecimal? n.negative n.scaled.1 n.scaled.2 <;> rfl
  rw [placed, value?]
  split
  next hpart =>
    obtain ⟨hfraction, hexponent⟩ := hpart
    have hscaled : n.scaled = (n.counted.1, (n.counted.2.2.length : Int)) := by
      simp [scaled, hfraction, hexponent, takeDigits]
    rw [hscaled] at hdouble
    rw [hscaled, wholeNumber]
    by_cases hdropped : n.counted.2.2 = []
    · rw [hdropped] at hdouble ⊢
      rw [List.length_nil, Int.ofNat_zero] at hdouble
      cases hnegative : n.negative with
      | false =>
          have hwhole : n.IsWhole := ⟨hfraction, hexponent, hdropped, by simp [hnegative]⟩
          simp [hwhole]
      | true =>
          rw [hnegative] at hdouble
          by_cases hrange : n.counted.1 = 0 ∨ Nat.pow 2 63 < n.counted.1
          · have hwhole : ¬ n.IsWhole := by
              rintro ⟨-, -, -, h⟩
              have hsome := h hnegative
              omega
            simpa only [List.length_nil, ne_eq, not_true_eq_false, if_false, if_true, if_pos hrange,
              if_neg hwhole, Int.ofNat_zero] using hdouble
          · have hwhole : n.IsWhole := ⟨hfraction, hexponent, hdropped, fun _ => by omega⟩
            simp only [List.length_nil, ne_eq, not_true_eq_false, if_false, if_true,
              if_neg hrange, if_pos hwhole]
    · have hwhole : ¬ n.IsWhole := fun h => hdropped h.2.2.1
      have hlength : n.counted.2.2.length ≠ 0 := fun h => hdropped (List.length_eq_zero_iff.mp h)
      rw [if_pos hlength, if_neg hwhole, hdouble]
  next hpart =>
    have hwhole : ¬ n.IsWhole := fun h => hpart ⟨h.1, h.2.1⟩
    rw [if_neg hwhole]
    exact hdouble

def EndsAt (n : Numeral) (rest : Bytes) : Prop :=
  Ends n.fraction n.exponent rest

theorem number_text (h : n.WellFormed) {rest : Bytes} (hrest : n.EndsAt rest) :
    number n.negative (n.unsigned ++ rest) =
      match n.value? with
      | some v => .ok (v, rest)
      | none => .error .numberOutOfRange := by
  have hmore := startsWithDigit_fractionText h.exponent hrest
  have hafter := afterWhole_text h.fraction h.exponent n.negative n.counted.1
    n.counted.2.2.length hrest
  rw [unsigned_append, ← n.placed_value? rest, ← hafter]
  rcases h.whole with hzero | ⟨⟨hne, hdigits⟩, hhead⟩
  · have hcounted : n.counted = (0, 1, []) := by rw [counted, hzero]; rfl
    rw [hcounted, hzero, List.singleton_append, number, if_pos rfl, hmore]
    rfl
  · rw [counted]
    cases hwhole : n.whole with
    | nil => exact absurd hwhole hne
    | cons b digits =>
        rw [hwhole] at hdigits hhead
        have hb : isDigit b = true := hdigits b List.mem_cons_self
        have hall : ∀ c ∈ digits, isDigit c = true := fun c hc =>
          hdigits c (List.mem_cons_of_mem _ hc)
        have hzero : b ≠ '0'.toUInt8 := by simpa using hhead
        obtain ⟨hnumber, hleft⟩ := takeDigits_first hb digits
        rw [List.cons_append, number, if_neg hzero, if_pos hb, takeDigits_append hall hmore]
        simp only [skipDigits, takeWhile_digits (digits_takeDigits hall _ _) hmore,
          dropWhile_digits (digits_takeDigits hall _ _) hmore, hnumber, hleft]

theorem skipNumber_text (h : n.WellFormed) {rest : Bytes} (hrest : n.EndsAt rest) :
    skipNumber (n.unsigned ++ rest) = .ok rest := by
  have hmore := startsWithDigit_fractionText h.exponent hrest
  have hafter := skipAfterWhole_text h.fraction h.exponent hrest
  rw [unsigned_append]
  rcases h.whole with hzero | ⟨⟨hne, hdigits⟩, hhead⟩
  · rw [hzero, List.singleton_append, skipNumber, if_pos rfl, hmore]
    exact hafter
  · cases hwhole : n.whole with
    | nil => exact absurd hwhole hne
    | cons b digits =>
        rw [hwhole] at hdigits hhead
        have hb : isDigit b = true := hdigits b List.mem_cons_self
        have hall : ∀ c ∈ digits, isDigit c = true := fun c hc =>
          hdigits c (List.mem_cons_of_mem _ hc)
        have hzero : b ≠ '0'.toUInt8 := by simpa using hhead
        rw [List.cons_append, skipNumber, if_neg hzero, if_pos hb, dropWhile_digits hall hmore,
          hafter]

theorem exists_of_skipNumber (negative : Bool) {bytes rest : Bytes}
    (h : skipNumber bytes = .ok rest) :
    ∃ n : Numeral, n.negative = negative ∧ n.WellFormed ∧ bytes = n.unsigned ++ rest ∧
      n.EndsAt rest := by
  cases bytes with
  | nil => cases h
  | cons b bytes =>
      rw [skipNumber] at h
      split at h
      next hzero =>
        split at h
        · cases h
        next hstart =>
          obtain ⟨fraction, e, hfraction, he, rfl, hends⟩ :=
            exists_ends_of_skip h (Bool.eq_false_iff.mpr hstart)
          exact ⟨⟨negative, ['0'.toUInt8], fraction, e⟩, rfl, ⟨.inl rfl, hfraction, he⟩,
            by rw [unsigned_append, hzero]; rfl, hends⟩
      next hzero =>
        split at h
        next hb =>
          obtain ⟨digits, more, htext, hdigits, hmore⟩ :=
            exists_digits (show startsWithDigit (b :: bytes) = true from hb)
          have hdrop : bytes.dropWhile isDigit = more := by
            rw [← dropWhile_digits hdigits.2 hmore, ← htext, List.dropWhile_cons_of_pos hb]
          rw [hdrop] at h
          obtain ⟨fraction, e, hfraction, he, rfl, hends⟩ := exists_ends_of_skip h hmore
          refine ⟨⟨negative, digits, fraction, e⟩, rfl, ⟨.inr ⟨hdigits, ?_⟩, hfraction, he⟩,
            by rw [unsigned_append, htext], hends⟩
          cases hdigits' : digits with
          | nil => exact absurd hdigits' hdigits.1
          | cons c digits =>
              rw [hdigits'] at htext
              rw [List.head?_cons, ← (List.cons.inj htext).1]
              simpa using hzero
        · cases h

end Numeral

theorem skipExponent_of_exponentPart {negative : Bool} {digits : Nat} {k : Int} {bytes : Bytes}
    {x : Json × Bytes} (h : exponentPart negative digits k bytes = .ok x) :
    ∃ rest, skipExponent bytes = .ok rest := by
  have hsome {b : UInt8} {tail : Bytes} (hb : isDigit b = true) :
      ∃ rest, skipSomeDigits (b :: tail) = .ok rest :=
    ⟨(b :: tail).dropWhile isDigit, if_pos hb⟩
  cases bytes with
  | nil => cases h
  | cons b bytes =>
      rw [skipExponent]
      by_cases hsign : b = '+'.toUInt8 ∨ b = '-'.toUInt8
      · rw [if_pos hsign]
        cases bytes with
        | nil => rcases hsign with rfl | rfl <;> cases h
        | cons c bytes =>
            refine hsome ?_
            by_contra hc
            have hne : '-'.toUInt8 ≠ '+'.toUInt8 := by decide
            rcases hsign with rfl | rfl <;> simp [exponentPart, hc, hne] at h
      · rw [if_neg hsign]
        refine hsome ?_
        by_contra hb
        obtain ⟨hplus, hminus⟩ := not_or.mp hsign
        simp [exponentPart, hplus, hminus, hb] at h

theorem skipAfterWhole_of_afterWhole {negative : Bool} {digits dropped : Nat} {bytes : Bytes}
    {x : Json × Bytes} (h : afterWhole negative digits dropped bytes = .ok x) :
    ∃ rest, skipAfterWhole bytes = .ok rest := by
  cases bytes with
  | nil => exact ⟨[], rfl⟩
  | cons b bytes =>
      rw [afterWhole] at h
      rw [skipAfterWhole]
      split at h
      next hpoint =>
        rw [if_pos hpoint]
        rw [fractionPart] at h
        split at h
        next hstart =>
          obtain ⟨ds, more, rfl, hds, hmore⟩ := exists_digits hstart
          rw [takeDigits_append hds.2 hmore] at h
          simp only [dropWhile_digits (digits_takeDigits hds.2 _ _) hmore] at h
          simp only [skipSomeDigits, hstart, if_true, dropWhile_digits hds.2 hmore]
          cases more with
          | nil => exact ⟨[], rfl⟩
          | cons c more =>
              rw [skipAfterFraction]
              dsimp only at h
              split at h
              next hletter =>
                rw [if_pos hletter]
                exact skipExponent_of_exponentPart h
              next hletter =>
                rw [if_neg hletter]
                exact ⟨_, rfl⟩
        · split at h <;> cases h
      next hpoint =>
        rw [if_neg hpoint, skipAfterFraction]
        split at h
        next hletter =>
          rw [if_pos hletter]
          exact skipExponent_of_exponentPart h
        next hletter =>
          rw [if_neg hletter]
          exact ⟨_, rfl⟩

theorem skipNumber_of_number {negative : Bool} {bytes : Bytes} {x : Json × Bytes}
    (h : number negative bytes = .ok x) : ∃ rest, skipNumber bytes = .ok rest := by
  cases bytes with
  | nil => cases h
  | cons b bytes =>
      rw [number] at h
      rw [skipNumber]
      split at h
      next hzero =>
        rw [if_pos hzero]
        split at h
        · cases h
        next hstart =>
          rw [if_neg hstart]
          exact skipAfterWhole_of_afterWhole h
      next hzero =>
        rw [if_neg hzero]
        split at h
        next hb =>
          rw [if_pos hb]
          have hsplit : bytes = bytes.takeWhile isDigit ++ bytes.dropWhile isDigit :=
            List.takeWhile_append_dropWhile.symm
          have hdigits : ∀ c ∈ bytes.takeWhile isDigit, isDigit c = true := fun _ hc =>
            List.mem_takeWhile_imp hc
          have hmore := startsWithDigit_dropWhile bytes
          rw [hsplit, takeDigits_append hdigits hmore] at h
          simp only [skipDigits, dropWhile_digits (digits_takeDigits hdigits _ _) hmore] at h
          exact skipAfterWhole_of_afterWhole h
        · cases h

theorem exists_of_number {negative : Bool} {bytes rest : Bytes} {v : Json}
    (h : number negative bytes = .ok (v, rest)) :
    ∃ n : Numeral, n.negative = negative ∧ n.WellFormed ∧ bytes = n.unsigned ++ rest ∧
      n.value? = some v := by
  obtain ⟨left, hskip⟩ := skipNumber_of_number h
  obtain ⟨n, rfl, hn, rfl, hends⟩ := Numeral.exists_of_skipNumber negative hskip
  rw [Numeral.number_text hn hends] at h
  cases hvalue : n.value? with
  | none =>
      rw [hvalue] at h
      cases h
  | some w =>
      rw [hvalue] at h
      cases h
      exact ⟨n, rfl, hn, rfl, hvalue⟩

end JoseTokens.Json
