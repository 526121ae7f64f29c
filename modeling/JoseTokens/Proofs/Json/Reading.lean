import JoseTokens.Json.Record
import JoseTokens.Proofs.Json.Strings
import Mathlib.Data.List.Forall2

namespace JoseTokens.Json

def Closed : Bytes → Prop
  | [] => True
  | b :: _ => isDigit b = false ∧ b ≠ '.'.toUInt8 ∧ isExponentLetter b = false

def Starts : Bytes → Prop
  | [] => False
  | b :: _ => isBlank b = false ∧ b ≠ ']'.toUInt8 ∧ b ≠ '\x7d'.toUInt8

def Reads {α : Type} (reader : Bytes → Step α) (text : Bytes) (x : α) : Prop :=
  ∀ rest, Closed rest → reader (text ++ rest) = .ok (x, rest)

theorem skipBlank_cons {b : UInt8} (h : isBlank b = false) (rest : Bytes) :
    skipBlank (b :: rest) = b :: rest := by
  simp [skipBlank, h]

theorem skipBlank_starts {text : Bytes} (h : Starts text) (rest : Bytes) :
    skipBlank (text ++ rest) = text ++ rest := by
  cases text with
  | nil => exact h.elim
  | cons b text => exact skipBlank_cons h.1 (text ++ rest)

theorem document_of_reads {α : Type} {reader : Reader α} {text : Bytes} {x : α}
    (h : Reads (reader maxDepth) text x) : document reader text = .ok x := by
  have hread := h [] trivial
  rw [List.append_nil] at hread
  simp [document, hread, skipBlank]

theorem reads_map {α β : Type} {reader : Bytes → Step α} {text : Bytes} {x : α} (f : α → β)
    (h : Reads reader text x) :
    Reads (fun bytes => (reader bytes).map fun (x, rest) => (f x, rest)) text (f x) := by
  intro rest hrest
  simp only [h rest hrest, Except.map]

def tailText (texts : List Bytes) : Bytes :=
  texts.flatMap fun text => ','.toUInt8 :: text

def joinText : List Bytes → Bytes
  | [] => []
  | text :: texts => text ++ tailText texts

def ReadsEach {α : Type} (reader : Bytes → Step α) (texts : List Bytes) (xs : List α) : Prop :=
  List.Forall₂ (fun text x => Starts text ∧ Reads reader text x) texts xs

theorem closed_tailText (texts : List Bytes) {b : UInt8} (rest : Bytes) (h : Closed (b :: rest)) :
    Closed (tailText texts ++ b :: rest) := by
  cases texts with
  | nil => exact h
  | cons text texts => exact ⟨rfl, by decide, rfl⟩

theorem closed_bracket (rest : Bytes) : Closed (']'.toUInt8 :: rest) :=
  ⟨rfl, by decide, rfl⟩

theorem closed_brace (rest : Bytes) : Closed ('\x7d'.toUInt8 :: rest) :=
  ⟨rfl, by decide, rfl⟩

theorem elementsFrom_tailText {α : Type} {item : Bytes → Step α} {texts : List Bytes} {xs : List α}
    (h : ReadsEach item texts xs) (bound : Bytes) (done : List α) (rest : Bytes)
    (hdone : done ≠ []) (hbound : texts.length < bound.length) :
    elementsFrom item bound done (tailText texts ++ ']'.toUInt8 :: rest) =
      .ok (done.reverse ++ xs, rest) := by
  induction h generalizing bound done with
  | nil =>
      cases bound with
      | nil => simp at hbound
      | cons y bound => simp [tailText, elementsFrom, skipBlank_cons (b := ']'.toUInt8) rfl]
  | @cons text x texts xs hx _ ih =>
      obtain ⟨hstart, hread⟩ := hx
      cases bound with
      | nil => simp at hbound
      | cons y bound =>
          have hrest := closed_tailText texts rest (closed_bracket rest)
          have hnext := ih bound (x :: done) (by simp) (by simpa using hbound)
          have hcomma : tailText (text :: texts) ++ ']'.toUInt8 :: rest =
              ','.toUInt8 :: (text ++ (tailText texts ++ ']'.toUInt8 :: rest)) := by
            simp [tailText]
          have hne : ','.toUInt8 ≠ ']'.toUInt8 := by decide
          rw [hcomma, elementsFrom, skipBlank_cons (b := ','.toUInt8) rfl]
          simp only [if_neg hne, List.isEmpty_iff, hdone, if_false, if_true,
            skipBlank_starts hstart]
          cases text with
          | nil => exact hstart.elim
          | cons b text =>
              simp only [List.cons_append, if_neg hstart.2.1]
              rw [show b :: (text ++ (tailText texts ++ ']'.toUInt8 :: rest)) =
                b :: text ++ (tailText texts ++ ']'.toUInt8 :: rest) from rfl, hread _ hrest]
              simpa using hnext

theorem length_le_tailText (texts : List Bytes) : texts.length ≤ (tailText texts).length := by
  induction texts with
  | nil => simp
  | cons text texts ih =>
      simp only [tailText, List.flatMap_cons, List.length_append, List.length_cons] at ih ⊢
      omega

theorem elements_joinText {α : Type} {item : Bytes → Step α} {texts : List Bytes} {xs : List α}
    (h : ReadsEach item texts xs) (rest : Bytes) :
    elements item (joinText texts ++ ']'.toUInt8 :: rest) = .ok (xs, rest) := by
  cases h with
  | nil => simp [joinText, elements, elementsFrom, skipBlank_cons (b := ']'.toUInt8) rfl]
  | @cons text x texts xs hx h =>
      obtain ⟨hstart, hread⟩ := hx
      cases text with
      | nil => exact hstart.elim
      | cons b text =>
          have hrest := closed_tailText texts rest (closed_bracket rest)
          have hlength := length_le_tailText texts
          have hnext := elementsFrom_tailText h (text ++ tailText texts ++ ']'.toUInt8 :: rest)
            [x] rest (by simp) (by simp only [List.length_append, List.length_cons]; omega)
          simp only [joinText, elements, List.cons_append, elementsFrom, skipBlank_cons hstart.1,
            if_neg hstart.2.1, List.isEmpty_nil, if_true]
          rw [show b :: (text ++ tailText texts ++ ']'.toUInt8 :: rest) =
            b :: text ++ (tailText texts ++ ']'.toUInt8 :: rest) by simp, hread _ hrest]
          exact hnext

def memberText (m : String × Bytes) : Bytes :=
  Bytes.ofChars (quoted m.1) ++ ':'.toUInt8 :: m.2

inductive Gathers {σ : Type} (member : String → σ → Bytes → Step σ) :
    σ → List (String × Bytes) → σ → Prop
  | nil (s : σ) : Gathers member s [] s
  | cons {s t u : σ} {name : String} {text : Bytes} {ms : List (String × Bytes)} :
      Reads (member name s) (':'.toUInt8 :: text) t → Gathers member t ms u →
      Gathers member s ((name, text) :: ms) u

theorem ofChars_quoted (s : String) : Bytes.ofChars (quoted s) =
    '"'.toUInt8 :: (Bytes.ofChars (s.toList.flatMap escapeChar) ++ ['"'.toUInt8]) := by
  rw [quoted, Bytes.ofChars_cons, Bytes.ofChars_append, Bytes.ofChars_cons, Bytes.ofChars_nil,
    Bytes.encode_ascii (by decide)]
  rfl

theorem memberText_append (name : String) (text rest : Bytes) :
    memberText (name, text) ++ rest =
      '"'.toUInt8 :: (Bytes.ofChars (name.toList.flatMap escapeChar) ++
        '"'.toUInt8 :: (':'.toUInt8 :: text ++ rest)) := by
  simp [memberText, ofChars_quoted]

theorem membersFrom_tailText {σ : Type} {member : String → σ → Bytes → Step σ} {s u : σ}
    {ms : List (String × Bytes)} (h : Gathers member s ms u) (bound rest : Bytes)
    (hbound : ms.length < bound.length) :
    membersFrom member bound false s (tailText (ms.map memberText) ++ '\x7d'.toUInt8 :: rest) =
      .ok (u, rest) := by
  induction h generalizing bound with
  | nil s =>
      cases bound with
      | nil => simp at hbound
      | cons y bound => simp [tailText, membersFrom, skipBlank_cons (b := '\x7d'.toUInt8) rfl]
  | @cons s t u name text ms hread _ ih =>
      cases bound with
      | nil => simp at hbound
      | cons y bound =>
          have hrest := closed_tailText (ms.map memberText) rest (closed_brace rest)
          have hnext := ih bound (by simpa using hbound)
          have hcomma : tailText (((name, text) :: ms).map memberText) ++ '\x7d'.toUInt8 :: rest =
              ','.toUInt8 :: (memberText (name, text) ++
                (tailText (ms.map memberText) ++ '\x7d'.toUInt8 :: rest)) := by
            simp [tailText]
          have hne : ','.toUInt8 ≠ '\x7d'.toUInt8 := by decide
          have hquote : '"'.toUInt8 ≠ '\x7d'.toUInt8 := by decide
          rw [hcomma, membersFrom, skipBlank_cons (b := ','.toUInt8) rfl]
          simp only [if_neg hne, Bool.false_eq_true, if_false, if_true,
            memberText_append, skipBlank_cons (b := '"'.toUInt8) rfl, if_neg hquote,
            stringBody_written, hread _ hrest]
          exact hnext

theorem members_joinText {σ : Type} {member : String → σ → Bytes → Step σ} {s u : σ}
    {ms : List (String × Bytes)} (h : Gathers member s ms u) (rest : Bytes) :
    members member s (joinText (ms.map memberText) ++ '\x7d'.toUInt8 :: rest) = .ok (u, rest) := by
  cases h with
  | nil => simp [joinText, members, membersFrom, skipBlank_cons (b := '\x7d'.toUInt8) rfl]
  | @cons _ t _ name text ms hread h =>
      have hrest := closed_tailText (ms.map memberText) rest (closed_brace rest)
      have hquote : '"'.toUInt8 ≠ '\x7d'.toUInt8 := by decide
      have hlength := length_le_tailText (ms.map memberText)
      rw [List.length_map] at hlength
      rw [List.map_cons, joinText, List.append_assoc, memberText_append, members, membersFrom,
        skipBlank_cons (b := '"'.toUInt8) rfl]
      simp only [if_neg hquote, if_true, stringBody_written, hread _ hrest]
      exact membersFrom_tailText h _ rest (by
        simp only [List.length_append, List.length_cons]
        omega)

end JoseTokens.Json
