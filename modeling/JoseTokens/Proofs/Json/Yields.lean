import JoseTokens.Proofs.Json.Distinct
import JoseTokens.Proofs.Json.Fields
import JoseTokens.Proofs.Json.Records
import JoseTokens.Proofs.Outcome

namespace JoseTokens.Json

def Yields {α : Type} (reader : Bytes → Step α) (P : α → Prop) : Prop :=
  ∀ bytes x rest, reader bytes = .ok (x, rest) → P x

section

variable {α β σ : Type} {P : α → Prop}

theorem yields_map {Q : β → Prop} {reader : Bytes → Step α} {f : α → β} (h : Yields reader P)
    (hf : ∀ x, P x → Q (f x)) :
    Yields (fun bytes => (reader bytes).map fun (x, rest) => (f x, rest)) Q := by
  intro bytes y rest hread
  obtain ⟨⟨x, rest'⟩, hx, heq⟩ := map_eq_ok hread
  cases heq
  exact hf x (h bytes x rest hx)

theorem yields_document {reader : Reader α} (h : Yields (reader maxDepth) P) {bytes : Bytes}
    {x : α} (hread : document reader bytes = .ok x) : P x := by
  rw [document] at hread
  split at hread
  · cases hread
  next value rest hvalue =>
    split at hread
    · cases hread
      exact h bytes x rest hvalue
    · cases hread

theorem yields_elementsFrom {item : Bytes → Step α} (h : Yields item P) (bound : Bytes)
    {done xs : List α} {bytes rest : Bytes}
    (hread : elementsFrom item bound done bytes = .ok (xs, rest)) (hdone : ∀ x ∈ done, P x) :
    ∀ x ∈ xs, P x := by
  induction bound generalizing done bytes with
  | nil => cases hread
  | cons y bound ih =>
      rw [elementsFrom] at hread
      split at hread
      · cases hread
      · split at hread
        · cases hread
          simpa using hdone
        · dsimp only at hread
          split at hread
          · cases hread
          · split at hread
            · cases hread
            next value left hvalue =>
              exact ih hread (List.forall_mem_cons.mpr ⟨h _ _ _ hvalue, hdone⟩)

theorem yields_elements {item : Bytes → Step α} (h : Yields item P) :
    Yields (elements item) fun xs => ∀ x ∈ xs, P x := by
  intro bytes xs rest hread
  exact yields_elementsFrom h bytes hread (by simp)

theorem yields_membersFrom {member : String → σ → Bytes → Step σ} {P : σ → Prop}
    (h : ∀ name s, P s → Yields (member name s) P) (bound : Bytes) {first : Bool} {s t : σ}
    {bytes rest : Bytes} (hread : membersFrom member bound first s bytes = .ok (t, rest))
    (hs : P s) : P t := by
  -- Each member takes one octet off the bound; the state it leaves is the next one's.
  induction bound generalizing first s bytes with
  | nil => cases hread
  | cons y bound ih =>
      rw [membersFrom] at hread
      split at hread
      · cases hread
      · split at hread
        · cases hread
          exact hs
        · dsimp only at hread
          split at hread
          · cases hread
          · cases hread
          · split at hread
            · split at hread
              · cases hread
              · split at hread
                · cases hread
                next state left hstate => exact ih hread (h _ _ hs _ _ _ hstate)
            · cases hread

theorem yields_members {member : String → σ → Bytes → Step σ} {P : σ → Prop}
    (h : ∀ name s, P s → Yields (member name s) P) {s : σ} (hs : P s) :
    Yields (members member s) P := by
  intro bytes t rest hread
  exact yields_membersFrom h bytes hread hs

theorem yields_optional {reader : Reader α} {d : Nat} (h : Yields (reader d) P) :
    Yields (optional reader d) fun x => ∀ y ∈ x, P y := by
  intro bytes x rest hread
  rw [optional] at hread
  split at hread
  · cases hread
  · split at hread
    · obtain ⟨_, _, heq⟩ := map_eq_ok hread
      cases heq
      simp
    · obtain ⟨⟨y, _⟩, hy, heq⟩ := map_eq_ok hread
      cases heq
      simpa using h _ _ _ hy

theorem yields_list {reader : Reader α} (h : ∀ d, Yields (reader d) P) (d : Nat) :
    Yields (list reader d) fun xs => ∀ x ∈ xs, P x := by
  intro bytes xs rest hread
  rw [list] at hread
  split at hread
  · cases hread
  · split at hread
    · cases d with
      | zero => cases hread
      | succ d => exact yields_elements (h d) _ _ _ hread
    · cases hread

end

def IsNumber : Json → Prop
  | .int _ => True
  | .double _ => True
  | _ => False

theorem IsNumber.distinct {v : Json} (h : IsNumber v) : Distinct v := by
  cases v with
  | int n => trivial
  | double x => trivial
  | null => cases h
  | bool b => cases h
  | string s => cases h
  | array items => cases h
  | object ms => cases h

section

variable {negative : Bool} {digits dropped : Nat} {e : Int}

theorem yields_doubleOf : Yields (doubleOf negative digits e) IsNumber := by
  intro rest v left hread
  rw [doubleOf] at hread
  split at hread <;> cases hread
  trivial

theorem yields_exponentPart : Yields (exponentPart negative digits e) IsNumber := by
  intro bytes v rest hread
  simp only [exponentPart] at hread
  split at hread
  · cases hread
  · split at hread
    · exact yields_doubleOf _ _ _ hread
    · cases hread

theorem yields_fractionPart : Yields (fractionPart negative digits e) IsNumber := by
  intro bytes v rest hread
  simp only [fractionPart] at hread
  split at hread
  · split at hread
    · exact yields_doubleOf _ _ _ hread
    · split at hread
      · exact yields_exponentPart _ _ _ hread
      · exact yields_doubleOf _ _ _ hread
  · split at hread <;> cases hread

theorem yields_wholeNumber : Yields (wholeNumber negative digits dropped) IsNumber := by
  intro rest v left hread
  rw [wholeNumber] at hread
  split at hread
  · exact yields_doubleOf _ _ _ hread
  · split at hread
    · split at hread
      · exact yields_doubleOf _ _ _ hread
      · cases hread
        trivial
    · cases hread
      trivial

theorem yields_afterWhole : Yields (afterWhole negative digits dropped) IsNumber := by
  intro bytes v rest hread
  cases bytes with
  | nil => exact yields_wholeNumber _ _ _ hread
  | cons b bytes =>
      rw [afterWhole] at hread
      split at hread
      · exact yields_fractionPart _ _ _ hread
      · split at hread
        · exact yields_exponentPart _ _ _ hread
        · exact yields_wholeNumber _ _ _ hread

theorem yields_number : Yields (number negative) IsNumber := by
  intro bytes v rest hread
  cases bytes with
  | nil => cases hread
  | cons b bytes =>
      rw [number] at hread
      split at hread
      · split at hread
        · cases hread
        · exact yields_afterWhole _ _ _ hread
      · split at hread
        · exact yields_afterWhole _ _ _ hread
        · cases hread

end

theorem yields_putMember {item : Bytes → Step Json} (h : Yields item Distinct) (name : String)
    (done : List (String × Json)) (hdone : Distinct (.object done)) :
    Yields (putMember item name done) fun ms => Distinct (.object ms) := by
  intro bytes ms rest hread
  rw [putMember] at hread
  split at hread
  · cases hread
  · split at hread
    · cases hread
    next value left hvalue =>
      cases hread
      exact distinct_put (h _ _ _ hvalue) hdone

theorem yields_value_of (d : Nat) (h : ∀ n, d = n + 1 → Yields (value n) Distinct) :
    Yields (value d) Distinct := by
  intro bytes v rest hread
  rw [value] at hread
  split at hread
  · cases hread
  split at hread
  · obtain ⟨_, _, heq⟩ := map_eq_ok hread
    cases heq
    trivial
  split at hread
  · obtain ⟨_, _, heq⟩ := map_eq_ok hread
    cases heq
    trivial
  split at hread
  · obtain ⟨_, _, heq⟩ := map_eq_ok hread
    cases heq
    trivial
  split at hread
  · exact (yields_number _ _ _ hread).distinct
  split at hread
  · exact (yields_number _ _ _ hread).distinct
  split at hread
  · obtain ⟨_, _, heq⟩ := map_eq_ok hread
    cases heq
    trivial
  split at hread
  · cases d with
    | zero => cases hread
    | succ n =>
        obtain ⟨⟨items, _⟩, hitems, heq⟩ := map_eq_ok hread
        cases heq
        exact distinct_array (yields_elements (h n rfl) _ _ _ hitems)
  split at hread
  · cases d with
    | zero => cases hread
    | succ n =>
        obtain ⟨⟨ms, _⟩, hms, heq⟩ := map_eq_ok hread
        cases heq
        exact yields_members (yields_putMember (h n rfl)) distinct_object_nil _ _ _ hms
  · cases hread

theorem yields_value (d : Nat) : Yields (value d) Distinct := by
  induction d with
  | zero => exact yields_value_of 0 fun n hn => absurd hn (Nat.succ_ne_zero n).symm
  | succ d ih =>
      refine yields_value_of (d + 1) fun n hn => ?_
      obtain rfl := Nat.succ.inj hn
      exact ih

theorem yields_object (d : Nat) : Yields (map d) fun ms => Distinct (.object ms) := by
  intro bytes ms rest hread
  rw [map] at hread
  split at hread
  · cases hread
  split at hread
  · cases d with
    | zero => cases hread
    | succ d =>
        exact yields_members (yields_putMember (yields_value d)) distinct_object_nil _ _ _ hread
  · cases hread

section

variable {σ α : Type} {P : σ → Prop}

def Member.Keeps (P : σ → Prop) (m : Member σ) : Prop :=
  ∀ d, Yields (m.read d) fun set => ∀ s, P s → P (set s)

theorem Member.keeps_of {Q : α → Prop} {reader : Reader α} (h : ∀ d, Yields (reader d) Q)
    {set : α → σ → σ} (hset : ∀ x s, Q x → P s → P (set x s)) (name : String) (required : Bool) :
    (Member.of name required reader set).Keeps P :=
  fun d => yields_map (h d) fun x hx s hs => hset x s hx hs

theorem Member.keeps_any {reader : Reader α} {set : α → σ → σ} (hset : ∀ x s, P s → P (set x s))
    (name : String) (required : Bool) : (Member.of name required reader set).Keeps P :=
  keeps_of (Q := fun _ => True) (fun _ _ _ _ _ => trivial) (fun x s _ hs => hset x s hs) name
    required

namespace Record

variable {r : Record σ} (hkeeps : ∀ m ∈ r.members, m.Keeps P)

include hkeeps

theorem yields_readMember (d : Nat) (name : String) (state : σ × List String) (hs : P state.1) :
    Yields (r.readMember d name state) fun next => P next.1 := by
  intro bytes next rest hread
  rw [readMember] at hread
  split at hread
  · obtain ⟨_, _, heq⟩ := map_eq_ok hread
    cases heq
    exact hs
  next m hfound =>
    split at hread
    · cases hread
    · split at hread
      · cases hread
      next set left hset =>
        cases hread
        obtain ⟨text, _, hset⟩ := bind_eq_ok hset
        exact hkeeps m (List.mem_of_find?_eq_some hfound) d _ _ _ hset _ hs

theorem yields_readObject (d : Nat) {start : σ} (hstart : P start) :
    Yields (r.readObject d start) P := by
  intro bytes t rest hread
  rw [readObject] at hread
  split at hread
  · cases hread
  next state seen left hmembers =>
    split at hread
    · cases hread
    · cases hread
      exact yields_members (P := fun next => P next.1) (yields_readMember hkeeps d) hstart _ _ _
        hmembers

theorem yields_readArray (d position : Nat) {ms : List (Member σ)} (hms : ∀ m ∈ ms, m ∈ r.members)
    {state : σ} (hstate : P state) : Yields (r.readArray d position ms state) P := by
  induction ms generalizing position state with
  | nil =>
      intro bytes t rest hread
      obtain ⟨_, _, _, _, rfl⟩ | ⟨_, _, _, _, _, _, hcons, _⟩ := readArray_cases hread
      · exact hstate
      · cases hcons
  | cons m ms ih =>
      intro bytes t rest hread
      obtain ⟨_, _, _, _, rfl⟩ | ⟨_, _, _, _, set, left, hcons, _, _, hset, hnext⟩ :=
        readArray_cases hread
      · exact hstate
      · cases hcons
        obtain ⟨hm, hrest⟩ := List.forall_mem_cons.mp hms
        exact ih (position + 1) hrest (hkeeps m hm d _ _ _ hset _ hstate) _ _ _ hnext

theorem yields_read {start : σ} (hstart : P start) (d : Nat) : Yields (r.read start d) P := by
  intro bytes t rest hread
  rw [Record.read] at hread
  split at hread
  · cases hread
  split at hread
  · cases d with
    | zero => cases hread
    | succ d => exact yields_readObject hkeeps d hstart _ _ _ hread
  split at hread
  · cases d with
    | zero => cases hread
    | succ d => exact yields_readArray hkeeps d 0 (fun _ hm => hm) hstart _ _ _ hread
  · cases hread

end Record

end

end JoseTokens.Json
