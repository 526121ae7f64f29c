import JoseTokens.Proofs.Json.Members
import JoseTokens.Proofs.Json.Numbers
import Mathlib.Algebra.Ring.Int.Defs

namespace JoseTokens.Json

def bytes (v : Json) : Bytes :=
  Bytes.ofChars v.chars

mutual

def Portable : Json → Prop
  | .null => True
  | .bool _ => True
  | .int n => -(2 ^ 63) ≤ n ∧ n < 2 ^ 64
  | .double _ => False
  | .string _ => True
  | .array items => PortableItems items
  | .object members => (members.map (·.1)).Nodup ∧ PortableMembers members

def PortableItems : List Json → Prop
  | [] => True
  | item :: rest => Portable item ∧ PortableItems rest

def PortableMembers : List (String × Json) → Prop
  | [] => True
  | (_, value) :: rest => Portable value ∧ PortableMembers rest

end

mutual

def depth : Json → Nat
  | .array items => itemDepth items + 1
  | .object members => memberDepth members + 1
  | _ => 0

def itemDepth : List Json → Nat
  | [] => 0
  | item :: rest => max (depth item) (itemDepth rest)

def memberDepth : List (String × Json) → Nat
  | [] => 0
  | (_, value) :: rest => max (depth value) (memberDepth rest)

end

theorem ofText_compact (v : Json) : Bytes.ofText v.compact = v.bytes := by
  rw [compact, Bytes.ofText_ofList, bytes]

theorem ofChars_comma (cs : List Char) :
    Bytes.ofChars (',' :: cs) = ','.toUInt8 :: Bytes.ofChars cs := by
  rw [Bytes.ofChars_cons, Bytes.encode_ascii (by decide), List.singleton_append]

theorem ofChars_itemChars (items : List Json) :
    Bytes.ofChars (itemChars items) = joinText (items.map bytes) := by
  induction items with
  | nil => rfl
  | cons item rest ih =>
      cases rest with
      | nil => simp [itemChars, joinText, tailText, bytes]
      | cons next rest =>
          rw [itemChars, Bytes.ofChars_append, ofChars_comma, ih]
          · simp [joinText, tailText, bytes]
          · simp

def writtenMember (m : String × Json) : String × Bytes :=
  (m.1, m.2.bytes)

theorem ofChars_member (name : String) (v : Json) (cs : List Char) :
    Bytes.ofChars (quoted name ++ ':' :: (v.chars ++ cs)) =
      memberText (writtenMember (name, v)) ++ Bytes.ofChars cs := by
  have hcolon : String.utf8EncodeChar ':' = [':'.toUInt8] := Bytes.encode_ascii (by decide)
  rw [Bytes.ofChars_append, Bytes.ofChars_cons, hcolon, Bytes.ofChars_append]
  simp [memberText, writtenMember, bytes]

theorem ofChars_memberChars (members : List (String × Json)) :
    Bytes.ofChars (memberChars members) =
      joinText ((members.map writtenMember).map memberText) := by
  induction members with
  | nil => rfl
  | cons m rest ih =>
      obtain ⟨name, v⟩ := m
      cases rest with
      | nil =>
          have h := ofChars_member name v []
          rw [List.append_nil, Bytes.ofChars_nil, List.append_nil] at h
          simpa [memberChars, joinText, tailText] using h
      | cons next rest =>
          rw [memberChars, ofChars_member, ofChars_comma, ih]
          · simp [joinText, tailText]
          · simp

theorem bytes_array (items : List Json) :
    bytes (.array items) = '['.toUInt8 :: (joinText (items.map bytes) ++ [']'.toUInt8]) := by
  rw [bytes, chars, Bytes.ofChars_cons, Bytes.ofChars_append, ofChars_itemChars, Bytes.ofChars_cons,
    Bytes.encode_ascii (by decide), Bytes.encode_ascii (by decide)]
  rfl

theorem bytes_object (members : List (String × Json)) :
    bytes (.object members) = '\x7b'.toUInt8 ::
      (joinText ((members.map writtenMember).map memberText) ++ ['\x7d'.toUInt8]) := by
  rw [bytes, chars, Bytes.ofChars_cons, Bytes.ofChars_append, ofChars_memberChars,
    Bytes.ofChars_cons, Bytes.encode_ascii (by decide), Bytes.encode_ascii (by decide)]
  rfl

theorem bytes_string (s : String) : bytes (.string s) =
    '"'.toUInt8 :: (Bytes.ofChars (s.toList.flatMap escapeChar) ++ ['"'.toUInt8]) :=
  ofChars_quoted s

theorem word_append (cs rest : Bytes) : word cs (cs ++ rest) = .ok rest := by
  induction cs with
  | nil => rfl
  | cons c cs ih => rw [List.cons_append, word, if_pos rfl, ih]

theorem digit_ne {b c : UInt8} (hb : isDigit b = true) (hc : isDigit c = false) : b ≠ c := by
  rintro rfl
  simp [hb] at hc

theorem isBlank_digit {b : UInt8} (hb : isDigit b = true) : isBlank b = false := by
  simp only [isBlank, Bool.or_eq_false_iff, beq_eq_false_iff_ne]
  exact ⟨⟨⟨digit_ne hb rfl, digit_ne hb rfl⟩, digit_ne hb rfl⟩, digit_ne hb rfl⟩

theorem value_digit {b : UInt8} (hb : isDigit b = true) (d : Nat) (rest : Bytes) :
    value d (b :: rest) = number false (b :: rest) := by
  have hn : b ≠ 'n'.toUInt8 := digit_ne hb rfl
  have ht : b ≠ 't'.toUInt8 := digit_ne hb rfl
  have hf : b ≠ 'f'.toUInt8 := digit_ne hb rfl
  have hminus : b ≠ '-'.toUInt8 := digit_ne hb rfl
  rw [value, skipBlank_cons (isBlank_digit hb)]
  simp only [if_neg hn, if_neg ht, if_neg hf, if_neg hminus, hb, if_true]

theorem value_minus (d : Nat) (rest : Bytes) :
    value d ('-'.toUInt8 :: rest) = number true rest := by
  cases d <;> rfl

theorem value_quote (d : Nat) (rest : Bytes) :
    value d ('"'.toUInt8 :: rest) = (stringBody rest).map fun (s, rest) => (.string s, rest) := by
  cases d <;> rfl

theorem value_bracket (d : Nat) (rest : Bytes) :
    value (d + 1) ('['.toUInt8 :: rest) =
      (elements (value d) rest).map fun (items, rest) => (.array items, rest) :=
  rfl

theorem value_brace (d : Nat) (rest : Bytes) :
    value (d + 1) ('\x7b'.toUInt8 :: rest) =
      (members (putMember (value d)) [] rest).map fun (ms, rest) => (.object ms, rest) :=
  rfl

theorem value_n (d : Nat) (rest : Bytes) : value d ('n'.toUInt8 :: rest) =
    (word (Bytes.ofText "ull") rest).map fun rest => (.null, rest) := by
  cases d <;> rfl

theorem value_t (d : Nat) (rest : Bytes) : value d ('t'.toUInt8 :: rest) =
    (word (Bytes.ofText "rue") rest).map fun rest => (.bool true, rest) := by
  cases d <;> rfl

theorem value_f (d : Nat) (rest : Bytes) : value d ('f'.toUInt8 :: rest) =
    (word (Bytes.ofText "alse") rest).map fun rest => (.bool false, rest) := by
  cases d <;> rfl

theorem bytes_nat (n : Nat) : bytes (.int n) = Bytes.ofChars (Nat.toDigits 10 n) := by
  have htext : bytes (.int n) = Bytes.ofChars n.repr.toList := rfl
  rw [htext, Nat.toList_repr]

theorem bytes_negSucc (n : Nat) : bytes (.int (.negSucc n)) =
    '-'.toUInt8 :: Bytes.ofChars (Nat.toDigits 10 (n + 1)) := by
  have htext : bytes (.int (.negSucc n)) =
      Bytes.ofChars ("-" ++ (n + 1).repr).toList := rfl
  rw [htext, String.toList_append, Nat.toList_repr, Bytes.ofChars_append]
  rfl

theorem ofChars_digits (n : Nat) :
    ∃ b rest, isDigit b = true ∧ Bytes.ofChars (Nat.toDigits 10 n) = b :: rest := by
  obtain ⟨c, cs, hcs, hc⟩ := toDigits_eq_cons n
  exact ⟨c.toUInt8, Bytes.ofChars cs, isDigit_digit hc, by
    rw [hcs, Bytes.ofChars_cons, encode_digit hc, List.singleton_append]⟩

theorem reads_whole (n : Int) (d : Nat) (h : -(2 ^ 63) ≤ n ∧ n < 2 ^ 64) :
    Reads (value d) (bytes (.int n)) (.int n) := by
  intro rest hrest
  cases n with
  | ofNat n =>
      have hn : n < Nat.pow 2 64 := by
        have h2 : (n : Int) < 2 ^ 64 := h.2
        have hpow : Nat.pow 2 64 = 18446744073709551616 := rfl
        omega
      obtain ⟨b, digits, hb, hdigits⟩ := ofChars_digits n
      have hread := number_digits false n hn hrest
      rw [Int.ofNat_eq_natCast, bytes_nat]
      rw [hdigits, List.cons_append] at hread ⊢
      rw [value_digit hb, hread]
      rfl
  | negSucc n =>
      have hn : n + 1 ≤ Nat.pow 2 63 := by
        have h1 : -(2 ^ 63) ≤ Int.negSucc n := h.1
        have hpow : Nat.pow 2 63 = 9223372036854775808 := rfl
        omega
      have hlarge : n + 1 < Nat.pow 2 64 := Nat.lt_of_le_of_lt hn (by decide)
      rw [bytes_negSucc, List.cons_append, value_minus, number_digits true (n + 1) hlarge hrest]
      have hfits : ¬ (n + 1 = 0 ∨ Nat.pow 2 63 < n + 1) := by omega
      rw [wholeNumber, if_neg (by decide), if_pos rfl, if_neg hfits]
      rfl

theorem reads_null (d : Nat) : Reads (value d) (bytes .null) .null := by
  intro rest _
  have htext : bytes .null = 'n'.toUInt8 :: Bytes.ofText "ull" := rfl
  rw [htext, List.cons_append, value_n, word_append]
  rfl

theorem reads_bool (b : Bool) (d : Nat) : Reads (value d) (bytes (.bool b)) (.bool b) := by
  intro rest _
  cases b with
  | true =>
      have htext : bytes (.bool true) = 't'.toUInt8 :: Bytes.ofText "rue" := rfl
      rw [htext, List.cons_append, value_t, word_append]
      rfl
  | false =>
      have htext : bytes (.bool false) = 'f'.toUInt8 :: Bytes.ofText "alse" := rfl
      rw [htext, List.cons_append, value_f, word_append]
      rfl

theorem starts_bytes (v : Json) (h : Portable v) : Starts (bytes v) := by
  cases v with
  | null => exact ⟨rfl, by decide, by decide⟩
  | bool b => cases b <;> exact ⟨rfl, by decide, by decide⟩
  | int n =>
      cases n with
      | ofNat n =>
          obtain ⟨b, digits, hb, hdigits⟩ := ofChars_digits n
          rw [Int.ofNat_eq_natCast, bytes_nat, hdigits]
          exact ⟨isBlank_digit hb, digit_ne hb rfl, digit_ne hb rfl⟩
      | negSucc n =>
          rw [bytes_negSucc]
          exact ⟨rfl, by decide, by decide⟩
  | double x => exact h.elim
  | string s =>
      rw [bytes_string]
      exact ⟨rfl, by decide, by decide⟩
  | array items =>
      rw [bytes_array]
      exact ⟨rfl, by decide, by decide⟩
  | object members =>
      rw [bytes_object]
      exact ⟨rfl, by decide, by decide⟩

theorem reads_putMember {item : Bytes → Step Json} {text : Bytes} {v : Json}
    (h : Reads item text v) (name : String) (done : List (String × Json)) :
    Reads (putMember item name done) (':'.toUInt8 :: text) (put name v done) := by
  intro rest hrest
  rw [List.cons_append, putMember, colon, skipBlank_cons (b := ':'.toUInt8) rfl]
  simp only [if_true, h rest hrest]

mutual

theorem reads_value (v : Json) (h : Portable v) (d : Nat) (hd : depth v ≤ d) :
    Reads (value d) (bytes v) v := by
  cases v with
  | null => exact reads_null d
  | bool b => exact reads_bool b d
  | int n => exact reads_whole n d h
  | double x => exact h.elim
  | string s =>
      intro rest _
      rw [bytes_string, List.cons_append, List.append_assoc, value_quote, List.singleton_append,
        stringBody_written]
      rfl
  | array items =>
      cases d with
      | zero => simp [depth] at hd
      | succ d =>
          intro rest _
          have hitems := readsEach_items items h d (Nat.le_of_succ_le_succ hd)
          rw [bytes_array, List.cons_append, List.append_assoc, List.singleton_append,
            value_bracket, elements_joinText hitems]
          rfl
  | object ms =>
      cases d with
      | zero => simp [depth] at hd
      | succ d =>
          intro rest _
          have hmembers := gathers_members ms h.2 d (Nat.le_of_succ_le_succ hd) [] h.1 (by simp)
          rw [bytes_object, List.cons_append, List.append_assoc, List.singleton_append,
            value_brace, members_joinText hmembers]
          rfl

theorem readsEach_items (items : List Json) (h : PortableItems items) (d : Nat)
    (hd : itemDepth items ≤ d) : ReadsEach (value d) (items.map bytes) items := by
  cases items with
  | nil => exact .nil
  | cons item items =>
      have hdepth : depth item ≤ d ∧ itemDepth items ≤ d := Nat.max_le.mp hd
      exact .cons ⟨starts_bytes item h.1, reads_value item h.1 d hdepth.1⟩
        (readsEach_items items h.2 d hdepth.2)

theorem gathers_members (ms : List (String × Json)) (h : PortableMembers ms) (d : Nat)
    (hd : memberDepth ms ≤ d) (done : List (String × Json)) (hnodup : (ms.map (·.1)).Nodup)
    (hnew : ∀ name ∈ ms.map (·.1), name ∉ done.map (·.1)) :
    Gathers (putMember (value d)) done (ms.map writtenMember) (done ++ ms) := by
  cases ms with
  | nil =>
      rw [List.append_nil]
      exact .nil done
  | cons m ms =>
      obtain ⟨name, v⟩ := m
      have hdepth : depth v ≤ d ∧ memberDepth ms ≤ d := Nat.max_le.mp hd
      have hread := reads_putMember (reads_value v h.1 d hdepth.1) name done
      rw [put_new name v done (hnew name (by simp))] at hread
      have hrest := gathers_members ms h.2 d hdepth.2 (done ++ [(name, v)])
        (List.nodup_cons.mp hnodup).2 (by
          intro other hother hmem
          rw [List.map_append, List.mem_append] at hmem
          rcases hmem with hmem | hmem
          · exact hnew other (List.mem_cons_of_mem _ hother) hmem
          · have heq : other = name := by simpa using hmem
            exact (List.nodup_cons.mp hnodup).1 (heq ▸ hother))
      rw [List.append_assoc, List.singleton_append] at hrest
      exact .cons hread hrest

end

end JoseTokens.Json
