import JoseTokens.Proofs.Json.Reading

namespace JoseTokens.Json

theorem digit_range {c : Char} (h : c.isDigit) : 48 ≤ c.toNat ∧ c.toNat ≤ 57 := by
  simp only [Char.isDigit, Bool.and_eq_true, decide_eq_true_eq, ge_iff_le,
    UInt32.le_iff_toNat_le] at h
  exact h

theorem toNat_digit {c : Char} (h : c.isDigit) : c.toUInt8.toNat = c.toNat :=
  toNat_toUInt8 (Nat.lt_of_le_of_lt (digit_range h).2 (by decide))

theorem encode_digit {c : Char} (h : c.isDigit) : String.utf8EncodeChar c = [c.toUInt8] :=
  Bytes.encode_ascii (Nat.lt_of_le_of_lt (digit_range h).2 (by decide))

theorem isDigit_digit {c : Char} (h : c.isDigit) : isDigit c.toUInt8 = true := by
  have hrange := digit_range h
  simp only [isDigit, Bool.and_eq_true, decide_eq_true_eq, UInt8.le_iff_toNat_le, toNat_digit h]
  exact hrange

theorem digitValue_digit {c : Char} (h : c.isDigit) :
    digitValue c.toUInt8 = c.toNat - '0'.toNat := by
  rw [digitValue, toNat_digit h]
  rfl

theorem startsWithDigit_closed {rest : Bytes} (h : Closed rest) : startsWithDigit rest = false := by
  cases rest with
  | nil => rfl
  | cons b rest => exact h.1

theorem le_ofDigitChars (cs : List Char) (n : Nat) : n ≤ Nat.ofDigitChars 10 cs n := by
  induction cs generalizing n with
  | nil => simp
  | cons c cs ih =>
      rw [Nat.ofDigitChars_cons]
      exact Nat.le_trans (by omega) (ih _)

theorem takeDigits_closed (n count : Nat) {rest : Bytes} (h : Closed rest) :
    takeDigits n count rest = (n, count, rest) := by
  cases rest with
  | nil => rfl
  | cons b rest => simp [takeDigits, h.1]

theorem takeDigits_ofChars (cs : List Char) (hcs : ∀ c ∈ cs, c.isDigit) (n count : Nat)
    (hn : Nat.ofDigitChars 10 cs n < Nat.pow 2 64) {rest : Bytes} (h : Closed rest) :
    takeDigits n count (Bytes.ofChars cs ++ rest) =
      (Nat.ofDigitChars 10 cs n, count + cs.length, rest) := by
  induction cs generalizing n count with
  | nil => simpa using takeDigits_closed n count h
  | cons c cs ih =>
      have hc : c.isDigit := hcs c List.mem_cons_self
      have htail : ∀ d ∈ cs, d.isDigit := fun d hd => hcs d (List.mem_cons_of_mem _ hd)
      rw [Nat.ofDigitChars_cons] at hn ⊢
      have hstep : n * 10 + digitValue c.toUInt8 = 10 * n + (c.toNat - '0'.toNat) := by
        rw [digitValue_digit hc, Nat.mul_comm]
      have hsmall : n * 10 + digitValue c.toUInt8 < Nat.pow 2 64 := by
        rw [hstep]
        exact Nat.lt_of_le_of_lt (le_ofDigitChars cs _) hn
      rw [Bytes.ofChars_cons, encode_digit hc, List.singleton_append, List.cons_append, takeDigits,
        if_pos ⟨isDigit_digit hc, hsmall⟩, hstep, ih htail _ _ hn]
      simp only [List.length_cons, Prod.mk.injEq, true_and, and_true]
      omega

theorem skipDigits_closed {rest : Bytes} (h : Closed rest) : skipDigits rest = (0, rest) := by
  cases rest with
  | nil => rfl
  | cons b rest => simp [skipDigits, h.1]

theorem afterWhole_closed (negative : Bool) (n dropped : Nat) {rest : Bytes} (h : Closed rest) :
    afterWhole negative n dropped rest = wholeNumber negative n dropped rest := by
  cases rest with
  | nil => rfl
  | cons b rest => simp [afterWhole, h.2.1, h.2.2]

theorem toDigits_head (n : Nat) (hn : 0 < n) :
    ∃ c cs, Nat.toDigits 10 n = c :: cs ∧ c ≠ '0' := by
  induction n using Nat.strongRecOn with
  | _ n ih =>
    rw [Nat.toDigits_eq_if (by decide)]
    split
    · exact ⟨_, _, rfl, by simpa using Nat.pos_iff_ne_zero.mp hn⟩
    · obtain ⟨c, cs, hcs, hc⟩ := ih (n / 10) (by omega) (by omega)
      exact ⟨c, cs ++ [Nat.digitChar (n % 10)], by rw [hcs]; rfl, hc⟩

theorem number_digits (negative : Bool) (n : Nat) (hn : n < Nat.pow 2 64) {rest : Bytes}
    (h : Closed rest) :
    number negative (Bytes.ofChars (Nat.toDigits 10 n) ++ rest) =
      wholeNumber negative n 0 rest := by
  rcases Nat.eq_zero_or_pos n with rfl | hpos
  · have htext : Bytes.ofChars (Nat.toDigits 10 0) = ['0'.toUInt8] := rfl
    rw [htext, List.singleton_append, number, if_pos rfl, startsWithDigit_closed h]
    exact afterWhole_closed _ _ _ h
  · obtain ⟨c, cs, hcs, hzero⟩ := toDigits_head n hpos
    have hdigits : ∀ d ∈ Nat.toDigits 10 n, d.isDigit := fun d hd =>
      Nat.isDigit_of_mem_toDigits (by decide) (by decide) hd
    have hvalue : Nat.ofDigitChars 10 (Nat.toDigits 10 n) 0 = n := Nat.ofDigitChars_ten_toDigits
    rw [hcs] at hdigits hvalue ⊢
    have hc : c.isDigit := hdigits c List.mem_cons_self
    have htail : ∀ d ∈ cs, d.isDigit := fun d hd => hdigits d (List.mem_cons_of_mem _ hd)
    rw [Nat.ofDigitChars_cons, Nat.mul_zero, Nat.zero_add, ← digitValue_digit hc] at hvalue
    have htake := takeDigits_ofChars cs htail (digitValue c.toUInt8) 0 (by rwa [hvalue]) h
    have hne : c.toUInt8 ≠ '0'.toUInt8 := fun heq => hzero
      (toUInt8_inj (Nat.lt_of_le_of_lt (digit_range hc).2 (by decide)) (by decide) heq)
    rw [Bytes.ofChars_cons, encode_digit hc, List.singleton_append, List.cons_append, number,
      if_neg hne, if_pos (isDigit_digit hc), htake, hvalue]
    simp only [skipDigits_closed h, afterWhole_closed _ _ _ h]

theorem toDigits_eq_cons (n : Nat) :
    ∃ c cs, Nat.toDigits 10 n = c :: cs ∧ c.isDigit := by
  cases h : Nat.toDigits 10 n with
  | nil => exact absurd h Nat.toDigits_ne_nil
  | cons c cs =>
      refine ⟨c, cs, rfl, Nat.isDigit_of_mem_toDigits (b := 10) (n := n) (by decide) (by decide) ?_⟩
      rw [h]
      exact List.mem_cons_self

end JoseTokens.Json
