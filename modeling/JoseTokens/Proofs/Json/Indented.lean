import JoseTokens.Proofs.Json.Meaning

namespace JoseTokens.Json

def indentedBytes (level : Nat) (v : Json) : Bytes :=
  Bytes.ofChars (indentedChars level v)

theorem Parses.text_of_reads {α : Type} {reader : Bytes → Step α} {P : Bytes → α → Prop}
    (h : Parses reader P) {text : Bytes} {x : α} (hstarts : Starts text)
    (hread : Reads reader text x) : P text x := by
  have hwhole := hread [] trivial
  rw [List.append_nil] at hwhole
  obtain ⟨gap, found, hgap, htext, hfound⟩ := h.found hwhole
  rw [List.append_nil] at htext
  cases gap with
  | nil =>
      rw [htext]
      exact hfound
  | cons b gap =>
      rw [htext] at hstarts
      have hb : isBlank b = true := hgap b List.mem_cons_self
      rw [hstarts.1] at hb
      cases hb

theorem stringText_quoted (s : String) : StringText (Bytes.ofChars (quoted s)) s := by
  refine (parses_text 0).text_of_reads ?_ (reads_text s 0)
  rw [ofChars_quoted]
  exact ⟨rfl, by decide, by decide⟩

theorem denotes_bytes {v : Json} (hportable : Portable v) {d : Nat} (hd : depth v ≤ d) :
    Denotes d (bytes v) v :=
  (parses_value d).text_of_reads (starts_bytes v hportable) (reads_value v hportable d hd)

theorem denotes_whole (n : Nat) (h : n < Nat.pow 2 63) (d : Nat) :
    Denotes d (bytes (.int n)) (.int n) := by
  have hportable : Portable (.int n) := by
    refine ⟨by omega, ?_⟩
    have hpow : Nat.pow 2 63 = 9223372036854775808 := rfl
    omega
  exact denotes_bytes hportable (Nat.zero_le d)

theorem blank_newline (level : Nat) : Blank (Bytes.ofChars (newline level)) := by
  have hspaces (n : Nat) : Blank (Bytes.ofChars (List.replicate n ' ')) := by
    induction n with
    | zero => exact Blank.nil
    | succ n ih =>
        rw [List.replicate_succ, Bytes.ofChars_cons, Bytes.encode_ascii (by decide),
          List.singleton_append]
        exact List.forall_mem_cons.mpr ⟨rfl, ih⟩
  rw [newline, Bytes.ofChars_cons, Bytes.encode_ascii (by decide), List.singleton_append]
  exact List.forall_mem_cons.mpr ⟨rfl, hspaces _⟩

theorem tail_indentedItems (level : Nat) (item : Json) (rest : List Json) {gap : Bytes}
    (hgap : Blank gap) :
    ∃ more, Bytes.ofChars (indentedItems level (item :: rest)) ++ gap =
        indentedBytes level item ++ more ∧ Tail Eq more (rest.map (indentedBytes level)) := by
  induction rest generalizing item with
  | nil => exact ⟨gap, rfl, .nil hgap⟩
  | cons next rest ih =>
      obtain ⟨more, hmore, htail⟩ := ih next
      refine ⟨','.toUInt8 :: (Bytes.ofChars (newline level) ++ (indentedBytes level next ++ more)),
        ?_, .cons Blank.nil (blank_newline level) rfl htail⟩
      rw [indentedItems, Bytes.ofChars_append, ofChars_comma, Bytes.ofChars_append,
        List.append_assoc, List.cons_append, List.append_assoc, hmore]
      · rfl
      · simp

theorem arrayText_indented (level : Nat) (items : List Json) :
    ArrayText (indentedBytes level (.array items)) (items.map (indentedBytes (level + 1))) := by
  cases items with
  | nil => exact ⟨[], rfl, .none Blank.nil⟩
  | cons item rest =>
      obtain ⟨more, hmore, htail⟩ :=
        tail_indentedItems (level + 1) item rest (blank_newline level)
      refine ⟨Bytes.ofChars (newline (level + 1)) ++ (indentedBytes (level + 1) item ++ more), ?_,
        .some (blank_newline _) rfl htail⟩
      rw [indentedBytes, indentedChars, Bytes.ofChars_cons, Bytes.ofChars_append,
        Bytes.ofChars_append, Bytes.ofChars_append, ← hmore, Bytes.encode_ascii (by decide)]
      simp only [List.append_assoc, List.singleton_append]
      rfl

theorem memberText_indented (level : Nat) (m : String × Json) :
    MemberText StringText
      (Bytes.ofChars (quoted m.1) ++ ':'.toUInt8 :: ' '.toUInt8 :: indentedBytes level m.2)
      (m.1, indentedBytes level m.2) := by
  have hspace : Blank [' '.toUInt8] := List.forall_mem_cons.mpr ⟨rfl, Blank.nil⟩
  exact .mk (stringText_quoted m.1) Blank.nil hspace

def indentedMember (level : Nat) (m : String × Json) : String × Bytes :=
  (m.1, indentedBytes level m.2)

theorem ofChars_indentedMember (level : Nat) (m : String × Json) (cs : List Char) :
    Bytes.ofChars (quoted m.1 ++ ':' :: ' ' :: (indentedChars level m.2 ++ cs)) =
      Bytes.ofChars (quoted m.1) ++ ':'.toUInt8 :: ' '.toUInt8 :: indentedBytes level m.2 ++
        Bytes.ofChars cs := by
  rw [Bytes.ofChars_append, Bytes.ofChars_cons, Bytes.ofChars_cons, Bytes.ofChars_append,
    Bytes.encode_ascii (show ':'.toNat < 128 by decide),
    Bytes.encode_ascii (show ' '.toNat < 128 by decide)]
  simp [indentedBytes]

theorem tail_indentedMembers (level : Nat) (m : String × Json) (rest : List (String × Json))
    {gap : Bytes} (hgap : Blank gap) :
    ∃ text more, Bytes.ofChars (indentedMembers level (m :: rest)) ++ gap = text ++ more ∧
      MemberText StringText text (indentedMember level m) ∧
      Tail (MemberText StringText) more (rest.map (indentedMember level)) := by
  induction rest generalizing m with
  | nil =>
      have htext := ofChars_indentedMember level m []
      rw [List.append_nil, Bytes.ofChars_nil, List.append_nil] at htext
      exact ⟨_, gap, congrArg (· ++ gap) htext, memberText_indented level m, .nil hgap⟩
  | cons next rest ih =>
      obtain ⟨text, more, hmore, htext, htail⟩ := ih next
      refine ⟨_, ','.toUInt8 :: (Bytes.ofChars (newline level) ++ (text ++ more)), ?_,
        memberText_indented level m, .cons Blank.nil (blank_newline level) htext htail⟩
      rw [indentedMembers, ofChars_indentedMember, ofChars_comma, Bytes.ofChars_append,
        List.append_assoc, List.cons_append, List.append_assoc (Bytes.ofChars (newline level)),
        hmore]
      simp

theorem objectText_indented (level : Nat) (ms : List (String × Json)) :
    ObjectText (indentedBytes level (.object ms)) (ms.map (indentedMember (level + 1))) := by
  cases ms with
  | nil => exact ⟨[], rfl, .none Blank.nil⟩
  | cons m rest =>
      obtain ⟨text, more, hmore, htext, htail⟩ :=
        tail_indentedMembers (level + 1) m rest (blank_newline level)
      refine ⟨Bytes.ofChars (newline (level + 1)) ++ (text ++ more), ?_,
        .some (blank_newline _) htext htail⟩
      rw [indentedBytes, indentedChars, Bytes.ofChars_cons, Bytes.ofChars_append,
        Bytes.ofChars_append, Bytes.ofChars_append, ← hmore, Bytes.encode_ascii (by decide)]
      simp only [List.append_assoc, List.singleton_append]
      rfl

theorem named_of_known {names : List String} {text : Bytes} {ms : List (String × Bytes)}
    (htext : ObjectText text ms) (hknown : ∀ m ∈ ms, m.1 ∈ names)
    (hnodup : (ms.map (·.1)).Nodup) : Named names text ms := by
  have hall : ms = ms.filter fun m => m.1 ∈ names :=
    (List.filter_eq_self.mpr fun m hm => decide_eq_true (hknown m hm)).symm
  exact ⟨ms, htext, hall, hnodup, fun m hm hother => absurd (hknown m hm) hother⟩

end JoseTokens.Json
