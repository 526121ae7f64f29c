import JoseTokens.Proofs.Json.Reading
import Mathlib.Data.List.TakeWhile

namespace JoseTokens.Json

def Blank (text : Bytes) : Prop :=
  ∀ b ∈ text, isBlank b = true

inductive CodeUnit : Bytes → Nat → Prop
  | digits {a b c d : UInt8} {m n p q : Nat} :
      hexValue? a = some m → hexValue? b = some n → hexValue? c = some p → hexValue? d = some q →
      CodeUnit [a, b, c, d] (((m * 16 + n) * 16 + p) * 16 + q)

def IsHigh (n : Nat) : Prop :=
  0xD800 ≤ n ∧ n ≤ 0xDBFF

def IsLow (n : Nat) : Prop :=
  0xDC00 ≤ n ∧ n ≤ 0xDFFF

def paired (high low : Nat) : Nat :=
  (high - 0xD800) * 1024 + (low - 0xDC00) + 0x10000

inductive Escaped : Bytes → Bytes → Prop
  | short {c b : UInt8} : escaped? c = some b → Escaped [c] [b]
  | single {digits : Bytes} {n : Nat} :
      CodeUnit digits n → ¬ IsHigh n → ¬ IsLow n →
      Escaped ('u'.toUInt8 :: digits) (codePoint n)
  | pair {digits digits' : Bytes} {high low : Nat} :
      CodeUnit digits high → IsHigh high → CodeUnit digits' low → IsLow low →
      Escaped ('u'.toUInt8 :: (digits ++ '\\'.toUInt8 :: 'u'.toUInt8 :: digits'))
        (codePoint (paired high low))

inductive Spells : Bytes → Bytes → Prop
  | nil : Spells [] []
  | plain {b : UInt8} {text octets : Bytes} :
      PlainOctet b → Spells text octets → Spells (b :: text) (b :: octets)
  | escape {text octets more others : Bytes} :
      Escaped text octets → Spells more others →
      Spells ('\\'.toUInt8 :: (text ++ more)) (octets ++ others)

inductive EscapeForm : Bytes → Prop
  | short {c : UInt8} : (escaped? c).isSome → EscapeForm [c]
  | unit {digits : Bytes} {n : Nat} : CodeUnit digits n → EscapeForm ('u'.toUInt8 :: digits)

inductive StringForm : Bytes → Prop
  | nil : StringForm []
  | plain {b : UInt8} {text : Bytes} : PlainOctet b → StringForm text → StringForm (b :: text)
  | escape {text more : Bytes} :
      EscapeForm text → StringForm more → StringForm ('\\'.toUInt8 :: (text ++ more))

def inQuotes (body : Bytes) : Bytes :=
  '"'.toUInt8 :: (body ++ ['"'.toUInt8])

def StringText (text : Bytes) (s : String) : Prop :=
  ∃ body, text = inQuotes body ∧ Spells body (Bytes.ofText s)

def Digits (text : Bytes) : Prop :=
  text ≠ [] ∧ ∀ b ∈ text, isDigit b = true

structure Exponent where
  letter : UInt8
  sign : Bytes
  digits : Bytes

namespace Exponent

def text (e : Exponent) : Bytes :=
  e.letter :: (e.sign ++ e.digits)

structure WellFormed (e : Exponent) : Prop where
  letter : isExponentLetter e.letter = true
  sign : e.sign = [] ∨ e.sign = ['+'.toUInt8] ∨ e.sign = ['-'.toUInt8]
  digits : Digits e.digits

def value (e : Exponent) : Int :=
  let n : Nat := e.digits.foldl (fun n d => n * 10 + digitValue d) 0
  if e.sign = ['-'.toUInt8] then -n else n

end Exponent

structure Numeral where
  negative : Bool
  whole : Bytes
  fraction : Option Bytes
  exponent : Option Exponent

namespace Numeral

def unsigned (n : Numeral) : Bytes :=
  n.whole ++ ((n.fraction.map fun digits => '.'.toUInt8 :: digits).getD [] ++
    (n.exponent.map Exponent.text).getD [])

def text (n : Numeral) : Bytes :=
  if n.negative then '-'.toUInt8 :: n.unsigned else n.unsigned

structure WellFormed (n : Numeral) : Prop where
  whole : n.whole = ['0'.toUInt8] ∨ (Digits n.whole ∧ n.whole.head? ≠ some '0'.toUInt8)
  fraction : ∀ digits ∈ n.fraction, Digits digits
  exponent : ∀ e ∈ n.exponent, e.WellFormed

/-- The digits before the point that count: those before the number would reach `2 ^ 64`. The
others are in the last part. -/
def counted (n : Numeral) : Nat × Nat × Bytes :=
  takeDigits 0 0 n.whole

def scaled (n : Numeral) : Nat × Int :=
  let (whole, _, dropped) := n.counted
  let (digits, places, _) := takeDigits whole 0 (n.fraction.getD [])
  (digits, (dropped.length : Int) - places + (n.exponent.map Exponent.value).getD 0)

def IsWhole (n : Numeral) : Prop :=
  n.fraction = none ∧ n.exponent = none ∧ n.counted.2.2 = [] ∧
    (n.negative = true → n.counted.1 ≠ 0 ∧ n.counted.1 ≤ Nat.pow 2 63)

instance (n : Numeral) : Decidable n.IsWhole :=
  decidable_of_iff (n.fraction.isNone ∧ n.exponent.isNone ∧ n.counted.2.2 = [] ∧
    (n.negative = true → n.counted.1 ≠ 0 ∧ n.counted.1 ≤ Nat.pow 2 63)) (by simp [IsWhole])

def value? (n : Numeral) : Option Json :=
  if n.IsWhole then some (.int (if n.negative then -n.counted.1 else n.counted.1))
  else (Double.ofDecimal? n.negative n.scaled.1 n.scaled.2).map .double

end Numeral

inductive Tail {ι : Type} (item : Bytes → ι → Prop) : Bytes → List ι → Prop
  | nil {gap : Bytes} : Blank gap → Tail item gap []
  | cons {gap gap' text more : Bytes} {x : ι} {xs : List ι} :
      Blank gap → Blank gap' → item text x → Tail item more xs →
      Tail item (gap ++ ','.toUInt8 :: (gap' ++ (text ++ more))) (x :: xs)

inductive Items {ι : Type} (item : Bytes → ι → Prop) : Bytes → List ι → Prop
  | none {gap : Bytes} : Blank gap → Items item gap []
  | some {gap text more : Bytes} {x : ι} {xs : List ι} :
      Blank gap → item text x → Tail item more xs →
      Items item (gap ++ (text ++ more)) (x :: xs)

def ArrayText (text : Bytes) (items : List Bytes) : Prop :=
  ∃ inner, text = '['.toUInt8 :: (inner ++ [']'.toUInt8]) ∧ Items Eq inner items

inductive MemberText {κ : Type} (name : Bytes → κ → Prop) : Bytes → κ × Bytes → Prop
  | mk {key gap gap' value : Bytes} {k : κ} :
      name key k → Blank gap → Blank gap' →
      MemberText name (key ++ (gap ++ ':'.toUInt8 :: (gap' ++ value))) (k, value)

def ObjectOf {κ : Type} (name : Bytes → κ → Prop) (text : Bytes) (ms : List (κ × Bytes)) : Prop :=
  ∃ inner, text = '\x7b'.toUInt8 :: (inner ++ ['\x7d'.toUInt8]) ∧
    Items (MemberText name) inner ms

def ObjectText : Bytes → List (String × Bytes) → Prop :=
  ObjectOf StringText

inductive Scalar : Bytes → Json → Prop
  | null : Scalar (Bytes.ofText "null") .null
  | true : Scalar (Bytes.ofText "true") (.bool true)
  | false : Scalar (Bytes.ofText "false") (.bool false)
  | number {n : Numeral} {v : Json} : n.WellFormed → n.value? = some v → Scalar n.text v
  | string {text : Bytes} {s : String} : StringText text s → Scalar text (.string s)

def putAll (ms : List (String × Json)) : List (String × Json) :=
  ms.foldl (fun done m => put m.1 m.2 done) []

def MembersDenote (Value : Bytes → Json → Prop) : List (String × Bytes) → List (String × Json) →
    Prop :=
  List.Forall₂ fun m v => v.1 = m.1 ∧ Value m.2 v.2

def Denotes : Nat → Bytes → Json → Prop
  | 0, text, v => Scalar text v
  | d + 1, text, v => Scalar text v ∨
      (∃ items vs, ArrayText text items ∧ List.Forall₂ (Denotes d) items vs ∧ v = .array vs) ∨
      (∃ ms vs, ObjectText text ms ∧ MembersDenote (Denotes d) ms vs ∧ v = .object (putAll vs))

inductive Formed : Bytes → Prop
  | null : Formed (Bytes.ofText "null")
  | true : Formed (Bytes.ofText "true")
  | false : Formed (Bytes.ofText "false")
  | number {n : Numeral} : n.WellFormed → Formed n.text
  | string {body : Bytes} : StringForm body → Formed (inQuotes body)
  | array {text : Bytes} {items : List Bytes} :
      ArrayText text items → (∀ item ∈ items, Formed item) → Formed text
  | object {text : Bytes} {ms : List (Bytes × Bytes)} :
      ObjectOf (fun key body => key = inQuotes body ∧ StringForm body) text ms →
      (∀ m ∈ ms, Formed m.2) → Formed text

def Named (names : List String) (text : Bytes) (fields : List (String × Bytes)) : Prop :=
  ∃ ms, ObjectText text ms ∧ fields = ms.filter (fun m => m.1 ∈ names) ∧
    (fields.map (·.1)).Nodup ∧ ∀ m ∈ ms, m.1 ∉ names → Formed m.2

def Placed (names : List String) (text : Bytes) (fields : List (String × Bytes)) : Prop :=
  ∃ items, ArrayText text items ∧ items.length ≤ names.length ∧ fields = names.zip items

def Written (names : List String) (text : Bytes) (fields : List (String × Bytes)) : Prop :=
  Named names text fields ∨ Placed names text fields

def Worth {α : Type} (P : Bytes → α → Prop) (default : α) (fields : List (String × Bytes))
    (name : String) (x : α) : Prop :=
  match find? name fields with
  | none => x = default
  | some text => P text x

theorem Blank.nil : Blank [] := fun _ h => absurd h List.not_mem_nil

theorem Blank.skip {gap : Bytes} (h : Blank gap) (text : Bytes) :
    skipBlank (gap ++ text) = skipBlank text := by
  rw [skipBlank, skipBlank, List.dropWhile_append_of_pos h]

theorem exists_blank (bytes : Bytes) : ∃ gap, Blank gap ∧ bytes = gap ++ skipBlank bytes :=
  ⟨bytes.takeWhile isBlank, fun _ h => List.mem_takeWhile_imp h,
    List.takeWhile_append_dropWhile.symm⟩

theorem exists_blank_of_skip {bytes : Bytes} {b : UInt8} {rest : Bytes}
    (h : skipBlank bytes = b :: rest) : ∃ gap, Blank gap ∧ bytes = gap ++ b :: rest := by
  obtain ⟨gap, hgap, hbytes⟩ := exists_blank bytes
  exact ⟨gap, hgap, h ▸ hbytes⟩

theorem skipBlank_eq_cons_iff {mark : UInt8} (hmark : isBlank mark = false) {bytes rest : Bytes} :
    skipBlank bytes = mark :: rest ↔ ∃ gap, Blank gap ∧ bytes = gap ++ mark :: rest := by
  constructor
  · exact exists_blank_of_skip
  · rintro ⟨gap, hgap, rfl⟩
    rw [hgap.skip, skipBlank_cons hmark]

end JoseTokens.Json
