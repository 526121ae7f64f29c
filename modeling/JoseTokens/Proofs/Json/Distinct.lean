import JoseTokens.Proofs.Json.Values

namespace JoseTokens.Json

mutual

def Everywhere (P : Json → Prop) : Json → Prop
  | .array items => P (.array items) ∧ EverywhereItems P items
  | .object members => P (.object members) ∧ EverywhereMembers P members
  | v => P v

def EverywhereItems (P : Json → Prop) : List Json → Prop
  | [] => True
  | item :: rest => Everywhere P item ∧ EverywhereItems P rest

def EverywhereMembers (P : Json → Prop) : List (String × Json) → Prop
  | [] => True
  | (_, value) :: rest => Everywhere P value ∧ EverywhereMembers P rest

end

def NamesOnce : Json → Prop
  | .object members => (members.map (·.1)).Nodup
  | _ => True

def FitsWord : Json → Prop
  | .int n => -(2 ^ 63) ≤ n ∧ n < 2 ^ 64
  | .double _ => False
  | _ => True

def Distinct (v : Json) : Prop :=
  Everywhere NamesOnce v

def WholeNumbers (v : Json) : Prop :=
  Everywhere FitsWord v

section

variable (P : Json → Prop) [DecidablePred P]

mutual

def decideEverywhere : (v : Json) → Decidable (Everywhere P v)
  | .null => inferInstanceAs (Decidable (P .null))
  | .bool b => inferInstanceAs (Decidable (P (.bool b)))
  | .int n => inferInstanceAs (Decidable (P (.int n)))
  | .double x => inferInstanceAs (Decidable (P (.double x)))
  | .string s => inferInstanceAs (Decidable (P (.string s)))
  | .array items =>
      have := decideEverywhereItems items
      inferInstanceAs (Decidable (P (.array items) ∧ EverywhereItems P items))
  | .object members =>
      have := decideEverywhereMembers members
      inferInstanceAs (Decidable (P (.object members) ∧ EverywhereMembers P members))

def decideEverywhereItems : (items : List Json) → Decidable (EverywhereItems P items)
  | [] => inferInstanceAs (Decidable True)
  | item :: rest =>
      have := decideEverywhere item
      have := decideEverywhereItems rest
      inferInstanceAs (Decidable (Everywhere P item ∧ EverywhereItems P rest))

def decideEverywhereMembers : (members : List (String × Json)) →
    Decidable (EverywhereMembers P members)
  | [] => inferInstanceAs (Decidable True)
  | (_, value) :: rest =>
      have := decideEverywhere value
      have := decideEverywhereMembers rest
      inferInstanceAs (Decidable (Everywhere P value ∧ EverywhereMembers P rest))

end

instance : DecidablePred (Everywhere P) :=
  decideEverywhere P

end

instance : DecidablePred NamesOnce
  | .object members => inferInstanceAs (Decidable (members.map (·.1)).Nodup)
  | .null | .bool _ | .int _ | .double _ | .string _ | .array _ =>
      inferInstanceAs (Decidable True)

instance : DecidablePred FitsWord
  | .int n => inferInstanceAs (Decidable (-(2 ^ 63) ≤ n ∧ n < 2 ^ 64))
  | .double _ => inferInstanceAs (Decidable False)
  | .null | .bool _ | .string _ | .array _ | .object _ => inferInstanceAs (Decidable True)

instance : DecidablePred Distinct :=
  inferInstanceAs (DecidablePred (Everywhere NamesOnce))

instance : DecidablePred WholeNumbers :=
  inferInstanceAs (DecidablePred (Everywhere FitsWord))

theorem everywhereItems_iff (P : Json → Prop) (items : List Json) :
    EverywhereItems P items ↔ ∀ v ∈ items, Everywhere P v := by
  induction items with
  | nil => simp [EverywhereItems]
  | cons item items ih => rw [EverywhereItems, ih, List.forall_mem_cons]

theorem everywhereMembers_iff (P : Json → Prop) (ms : List (String × Json)) :
    EverywhereMembers P ms ↔ ∀ m ∈ ms, Everywhere P m.2 := by
  induction ms with
  | nil => simp [EverywhereMembers]
  | cons m ms ih => rw [EverywhereMembers, ih, List.forall_mem_cons]

mutual

theorem portable_iff (v : Json) : Portable v ↔ Distinct v ∧ WholeNumbers v := by
  cases v with
  | null => simp [Portable, Distinct, WholeNumbers, Everywhere, NamesOnce, FitsWord]
  | bool b => simp [Portable, Distinct, WholeNumbers, Everywhere, NamesOnce, FitsWord]
  | int n => simp [Portable, Distinct, WholeNumbers, Everywhere, NamesOnce, FitsWord]
  | double x => simp [Portable, Distinct, WholeNumbers, Everywhere, NamesOnce, FitsWord]
  | string s => simp [Portable, Distinct, WholeNumbers, Everywhere, NamesOnce, FitsWord]
  | array items =>
      simp only [Portable, Distinct, WholeNumbers, Everywhere, NamesOnce, FitsWord, true_and]
      exact portableItems_iff items
  | object ms =>
      simp only [Portable, Distinct, WholeNumbers, Everywhere, NamesOnce, FitsWord, true_and,
        and_assoc]
      exact and_congr_right fun _ => portableMembers_iff_everywhere ms

theorem portableItems_iff (items : List Json) :
    PortableItems items ↔ EverywhereItems NamesOnce items ∧ EverywhereItems FitsWord items := by
  cases items with
  | nil => simp [PortableItems, EverywhereItems]
  | cons item items =>
      rw [PortableItems, portable_iff item, portableItems_iff items, EverywhereItems,
        EverywhereItems, Distinct, WholeNumbers, and_and_and_comm]

theorem portableMembers_iff_everywhere (ms : List (String × Json)) :
    PortableMembers ms ↔ EverywhereMembers NamesOnce ms ∧ EverywhereMembers FitsWord ms := by
  cases ms with
  | nil => simp [PortableMembers, EverywhereMembers]
  | cons m ms =>
      obtain ⟨name, v⟩ := m
      rw [PortableMembers, portable_iff v, portableMembers_iff_everywhere ms, EverywhereMembers,
        EverywhereMembers, Distinct, WholeNumbers, and_and_and_comm]

end

theorem distinct_array {items : List Json} (h : ∀ v ∈ items, Distinct v) :
    Distinct (.array items) :=
  ⟨trivial, (everywhereItems_iff NamesOnce items).mpr h⟩

theorem distinct_object_iff {ms : List (String × Json)} :
    Distinct (.object ms) ↔ (ms.map (·.1)).Nodup ∧ ∀ m ∈ ms, Distinct m.2 := by
  rw [Distinct, Everywhere, everywhereMembers_iff]
  rfl

theorem distinct_put {name : String} {v : Json} {ms : List (String × Json)} (hv : Distinct v)
    (h : Distinct (.object ms)) : Distinct (.object (put name v ms)) := by
  obtain ⟨hnames, hmembers⟩ := distinct_object_iff.mp h
  refine distinct_object_iff.mpr ⟨nodup_put name v hnames, fun m hm => ?_⟩
  rcases mem_put hm with heq | hm
  · rw [heq]
    exact hv
  · exact hmembers m hm

theorem distinct_object_nil : Distinct (.object []) :=
  distinct_object_iff.mpr ⟨List.nodup_nil, by simp⟩

end JoseTokens.Json
