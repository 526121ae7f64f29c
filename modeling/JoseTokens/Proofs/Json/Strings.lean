import JoseTokens.Json.Printer
import JoseTokens.Json.Reader
import JoseTokens.Proofs.Text.Octets

namespace JoseTokens.Json

def PlainOctet (b : UInt8) : Prop :=
  b ≠ '"'.toUInt8 ∧ b ≠ '\\'.toUInt8 ∧ ¬ b < 32

theorem stringOctets_plain (text : Bytes) (h : ∀ b ∈ text, PlainOctet b) (bound done tail : Bytes)
    (hbound : text.length ≤ bound.length) :
    stringOctets bound done (text ++ tail) =
      stringOctets (bound.drop text.length) (text.reverse ++ done) tail := by
  induction text generalizing bound done with
  | nil => rfl
  | cons b text ih =>
      obtain ⟨hquote, hslash, hcontrol⟩ := h b List.mem_cons_self
      have htext : ∀ c ∈ text, PlainOctet c := fun c hc => h c (List.mem_cons_of_mem _ hc)
      cases bound with
      | nil => simp at hbound
      | cons x bound =>
          have hlength : text.length ≤ bound.length := by simpa using hbound
          rw [List.cons_append, stringOctets, if_neg hquote, if_neg hslash, if_neg hcontrol,
            ih htext bound (b :: done) hlength]
          simp

theorem stringOctets_escape (x : UInt8) (bound done text tail octets : Bytes)
    (h : escape (text ++ tail) = .ok (octets, tail)) :
    stringOctets (x :: bound) done ('\\'.toUInt8 :: text ++ tail) =
      stringOctets bound (octets.reverse ++ done) tail := by
  have hquote : '\\'.toUInt8 ≠ '"'.toUInt8 := by decide
  rw [List.cons_append, stringOctets, if_neg hquote, if_pos rfl, h]

theorem hexValue?_digit : ∀ n < 16, hexValue? (Hex.digit n).toUInt8 = some n := by decide

theorem digit_ascii : ∀ n < 16, (Hex.digit n).toNat < 128 := by decide

theorem escape_control {c : Char} (h : c.toNat < 32) (tail : Bytes) :
    escape ('u'.toUInt8 :: '0'.toUInt8 :: '0'.toUInt8 :: (Hex.digit (c.toNat / 16)).toUInt8 ::
      (Hex.digit (c.toNat % 16)).toUInt8 :: tail) = .ok (String.utf8EncodeChar c, tail) := by
  have hhigh : hexValue? (Hex.digit (c.toNat / 16)).toUInt8 = some (c.toNat / 16) :=
    hexValue?_digit _ (by omega)
  have hlow : hexValue? (Hex.digit (c.toNat % 16)).toUInt8 = some (c.toNat % 16) :=
    hexValue?_digit _ (by omega)
  have hzero : hexValue? '0'.toUInt8 = some 0 := rfl
  have hsum : c.toNat / 16 * 16 + c.toNat % 16 = c.toNat := by omega
  have hsurrogate : ¬ (0xDC00 ≤ c.toNat ∧ c.toNat ≤ 0xDFFF) := by omega
  have hpair : ¬ (0xD800 ≤ c.toNat ∧ c.toNat ≤ 0xDBFF) := by omega
  rw [escape, if_pos rfl]
  simp only [unicodeEscape, codeUnit, hhigh, hlow, hzero, Nat.zero_mul, Nat.zero_add, hsum,
    hsurrogate, hpair, if_false, codePoint, Char.ofNat_toNat]

def ReadInPlace (c : Char) : Prop :=
  ∃ k ≤ (Bytes.ofChars (escapeChar c)).length, ∀ bound done tail : Bytes, k ≤ bound.length →
    stringOctets bound done (Bytes.ofChars (escapeChar c) ++ tail) =
      stringOctets (bound.drop k) ((String.utf8EncodeChar c).reverse ++ done) tail

theorem readInPlace_escape (c : Char) (text : Bytes)
    (htext : Bytes.ofChars (escapeChar c) = '\\'.toUInt8 :: text)
    (hread : ∀ tail, escape (text ++ tail) = .ok (String.utf8EncodeChar c, tail)) :
    ReadInPlace c := by
  refine ⟨1, by simp [htext], fun bound done tail hbound => ?_⟩
  cases bound with
  | nil => simp at hbound
  | cons x bound =>
      rw [htext]
      exact stringOctets_escape x bound done text tail _ (hread tail)

theorem readInPlace_short (c d : Char) (hesc : escapeChar c = ['\\', d]) (hd : d.toNat < 128)
    (hread : ∀ tail, escape (d.toUInt8 :: tail) = .ok (String.utf8EncodeChar c, tail)) :
    ReadInPlace c := by
  refine readInPlace_escape c [d.toUInt8] ?_ hread
  rw [hesc, Bytes.ofChars_cons, Bytes.ofChars_cons, Bytes.encode_ascii hd,
    Bytes.encode_ascii (by decide)]
  rfl

theorem readInPlace_control (c : Char) (hc : c.toNat < 32)
    (hesc : escapeChar c =
      ['\\', 'u', '0', '0', Hex.digit (c.toNat / 16), Hex.digit (c.toNat % 16)]) :
    ReadInPlace c := by
  refine readInPlace_escape c ['u'.toUInt8, '0'.toUInt8, '0'.toUInt8,
    (Hex.digit (c.toNat / 16)).toUInt8, (Hex.digit (c.toNat % 16)).toUInt8] ?_ (escape_control hc)
  rw [hesc]
  simp only [Bytes.ofChars_cons, Bytes.ofChars_nil,
    Bytes.encode_ascii (digit_ascii (c.toNat / 16) (by omega)),
    Bytes.encode_ascii (digit_ascii (c.toNat % 16) (by omega)),
    Bytes.encode_ascii (show '\\'.toNat < 128 by decide),
    Bytes.encode_ascii (show 'u'.toNat < 128 by decide),
    Bytes.encode_ascii (show '0'.toNat < 128 by decide), List.singleton_append]

theorem toNat_toUInt8 {c : Char} (hc : c.toNat < 128) : c.toUInt8.toNat = c.toNat := by
  rw [Char.toUInt8, UInt32.toNat_toUInt8]
  exact Nat.mod_eq_of_lt (Nat.lt_trans hc (by decide))

theorem toUInt8_inj {c d : Char} (hc : c.toNat < 128) (hd : d.toNat < 128)
    (h : c.toUInt8 = d.toUInt8) : c = d := by
  have hcd : c.toNat = d.toNat := by rw [← toNat_toUInt8 hc, h, toNat_toUInt8 hd]
  rw [← Char.ofNat_toNat c, hcd, Char.ofNat_toNat]

theorem plainOctet_of_mem_encode {c : Char} (hquote : c ≠ '"') (hslash : c ≠ '\\')
    (hcontrol : ¬ c.toNat < 32) : ∀ b ∈ String.utf8EncodeChar c, PlainOctet b := by
  intro b hb
  by_cases hascii : c.toNat < 128
  · rw [Bytes.encode_ascii hascii, List.mem_singleton] at hb
    subst hb
    refine ⟨fun h => hquote (toUInt8_inj hascii (by decide) h),
      fun h => hslash (toUInt8_inj hascii (by decide) h), ?_⟩
    rw [UInt8.lt_iff_toNat_lt, toNat_toUInt8 hascii]
    exact hcontrol
  · have hwide := Bytes.encode_wide (Nat.le_of_not_lt hascii) b hb
    refine ⟨?_, ?_, ?_⟩
    · rintro rfl
      exact absurd hwide (by decide)
    · rintro rfl
      exact absurd hwide (by decide)
    · intro h
      have hb : b.toNat < 32 := UInt8.lt_iff_toNat_lt.mp h
      omega

theorem readInPlace_plain (c : Char) (hesc : escapeChar c = [c])
    (hplain : ∀ b ∈ String.utf8EncodeChar c, PlainOctet b) : ReadInPlace c := by
  have htext : Bytes.ofChars (escapeChar c) = String.utf8EncodeChar c := by
    rw [hesc, Bytes.ofChars_cons, Bytes.ofChars_nil, List.append_nil]
  refine ⟨(String.utf8EncodeChar c).length, Nat.le_of_eq (congrArg List.length htext.symm),
    fun bound done tail hbound => ?_⟩
  rw [htext]
  exact stringOctets_plain _ hplain bound done tail hbound

theorem readInPlace (c : Char) : ReadInPlace c := by
  have named (n : Nat) (h : c.toNat = n) : c = Char.ofNat n := by rw [← h, Char.ofNat_toNat]
  by_cases hquote : c = '"'
  · subst hquote
    exact readInPlace_short _ '"' rfl (by decide) fun _ => rfl
  by_cases hslash : c = '\\'
  · subst hslash
    exact readInPlace_short _ '\\' rfl (by decide) fun _ => rfl
  by_cases h8 : c.toNat = 8
  · rw [named 8 h8]
    exact readInPlace_short _ 'b' rfl (by decide) fun _ => rfl
  by_cases h9 : c.toNat = 9
  · rw [named 9 h9]
    exact readInPlace_short _ 't' rfl (by decide) fun _ => rfl
  by_cases h10 : c.toNat = 10
  · rw [named 10 h10]
    exact readInPlace_short _ 'n' rfl (by decide) fun _ => rfl
  by_cases h12 : c.toNat = 12
  · rw [named 12 h12]
    exact readInPlace_short _ 'f' rfl (by decide) fun _ => rfl
  by_cases h13 : c.toNat = 13
  · rw [named 13 h13]
    exact readInPlace_short _ 'r' rfl (by decide) fun _ => rfl
  by_cases h32 : c.toNat < 32
  · exact readInPlace_control c h32 (by
      simp [escapeChar, hquote, hslash, h8, h9, h10, h12, h13, h32])
  · exact readInPlace_plain c
      (by simp [escapeChar, hquote, hslash, h8, h9, h10, h12, h13, h32])
      (plainOctet_of_mem_encode hquote hslash h32)

theorem stringOctets_written (cs : List Char) (bound done rest : Bytes)
    (hbound : (Bytes.ofChars (cs.flatMap escapeChar)).length < bound.length) :
    stringOctets bound done (Bytes.ofChars (cs.flatMap escapeChar) ++ '"'.toUInt8 :: rest) =
      .ok (done.reverse ++ Bytes.ofChars cs, rest) := by
  induction cs generalizing bound done with
  | nil =>
      cases bound with
      | nil => simp at hbound
      | cons x bound =>
          simp [stringOctets]
  | cons c cs ih =>
      obtain ⟨k, hk, hstep⟩ := readInPlace c
      rw [List.flatMap_cons, Bytes.ofChars_append, List.length_append] at hbound
      have htail : (Bytes.ofChars (cs.flatMap escapeChar)).length < (bound.drop k).length := by
        rw [List.length_drop]
        omega
      rw [List.flatMap_cons, Bytes.ofChars_append, List.append_assoc,
        hstep bound done _ (by omega), ih _ _ htail]
      simp [Bytes.ofChars_cons]

theorem stringBody_written (s : String) (rest : Bytes) :
    stringBody (Bytes.ofChars (s.toList.flatMap escapeChar) ++ '"'.toUInt8 :: rest) =
      .ok (s, rest) := by
  have hread := stringOctets_written s.toList
    (Bytes.ofChars (s.toList.flatMap escapeChar) ++ '"'.toUInt8 :: rest) [] rest (by simp)
  rw [stringBody, hread]
  simp only [List.reverse_nil, List.nil_append, Bytes.toText?_ofChars, String.ofList_toList]

end JoseTokens.Json
