import JoseTokens.Proofs.Json.Values

namespace JoseTokens.Json

def StartsOther : Bytes → Prop
  | [] => False
  | b :: _ => isBlank b = false ∧ b ≠ 'n'.toUInt8

theorem startsOther_string (s : String) : StartsOther (bytes (.string s)) := by
  rw [bytes_string]
  exact ⟨rfl, by decide⟩

theorem startsOther_array (items : List Json) : StartsOther (bytes (.array items)) := by
  rw [bytes_array]
  exact ⟨rfl, by decide⟩

theorem starts_object (ms : List (String × Json)) : Starts (bytes (.object ms)) := by
  rw [bytes_object]
  exact ⟨rfl, by decide, by decide⟩

theorem reads_text (s : String) (d : Nat) : Reads (text d) (bytes (.string s)) s := by
  intro rest _
  rw [bytes_string, List.cons_append, List.append_assoc, text,
    skipBlank_cons (b := '"'.toUInt8) rfl, List.singleton_append]
  simp only [if_true, stringBody_written]

theorem reads_optional {α : Type} {reader : Reader α} {d : Nat} {text : Bytes} {x : α}
    (h : Reads (reader d) text x) (hstart : StartsOther text) :
    Reads (optional reader d) text (some x) := by
  intro rest hrest
  have hread := h rest hrest
  cases text with
  | nil => exact hstart.elim
  | cons b text =>
      rw [List.cons_append] at hread ⊢
      rw [optional, skipBlank_cons hstart.1]
      simp only [if_neg hstart.2, hread]
      rfl

theorem reads_list {α : Type} {reader : Reader α} {d : Nat} {items : List Json} {xs : List α}
    (h : ReadsEach (reader d) (items.map bytes) xs) :
    Reads (list reader (d + 1)) (bytes (.array items)) xs := by
  intro rest _
  rw [bytes_array, List.cons_append, List.append_assoc, List.singleton_append, list,
    skipBlank_cons (b := '['.toUInt8) rfl]
  simp only [if_true, elements_joinText h]

theorem reads_map_object (ms : List (String × Json)) (h : Portable (.object ms)) (d : Nat)
    (hd : depth (.object ms) ≤ d) : Reads (map d) (bytes (.object ms)) ms := by
  cases d with
  | zero => simp [depth] at hd
  | succ d =>
      intro rest _
      have hmembers := gathers_members ms h.2 d (Nat.le_of_succ_le_succ hd) [] h.1 (by simp)
      rw [bytes_object, List.cons_append, List.append_assoc, List.singleton_append, map,
        skipBlank_cons (b := '\x7b'.toUInt8) rfl]
      simp only [if_true, members_joinText hmembers, List.nil_append]

namespace Record

variable {σ : Type} {r : Record σ} {d : Nat}

inductive Fills (r : Record σ) (d : Nat) : σ → List (String × Json) → σ → Prop
  | nil (s : σ) : Fills r d s [] s
  | cons {s u : σ} {name : String} {v : Json} {ms : List (String × Json)} {m : Member σ}
      {set : σ → σ} :
      (r.members.find? fun m => m.name == name) = some m → Reads (m.read d) v.bytes set →
      Fills r d (set s) ms u → Fills r d s ((name, v) :: ms) u

theorem Fills.append {s t u : σ} {ms others : List (String × Json)} (h : Fills r d s ms t)
    (hothers : Fills r d t others u) : Fills r d s (ms ++ others) u := by
  induction h with
  | nil s => exact hothers
  | cons hknown hread _ ih => exact .cons hknown hread (ih hothers)

theorem fills_of {α : Type} {name known : String} {required : Bool} {reader : Reader α}
    {set : α → σ → σ} {v : Json} {x : α} {s u : σ} (hread : Reads (reader d) v.bytes x)
    (hknown : (r.members.find? fun m => m.name == name) =
      some (Member.of known required reader set))
    (hset : set x s = u) : Fills r d s [(name, v)] u := by
  subst hset
  exact .cons hknown (reads_map set hread) (.nil _)

theorem gathers_fills {s u : σ} {ms : List (String × Json)} (h : Fills r d s ms u)
    (seen : List String) (hnodup : (ms.map (·.1)).Nodup)
    (hnew : ∀ name ∈ ms.map (·.1), name ∉ seen) :
    ∃ names, Gathers (r.readMember d) (s, seen) (ms.map writtenMember) (u, names) := by
  induction h generalizing seen with
  | nil s => exact ⟨seen, .nil _⟩
  | @cons s u name v ms m set hknown hread _ ih =>
      have hname : seen.contains name = false := by
        simpa using hnew name List.mem_cons_self
      have hnames := List.nodup_cons.mp hnodup
      have hrest : ∀ other ∈ ms.map (·.1), other ∉ name :: seen := by
        intro other hother hmem
        rcases List.mem_cons.mp hmem with rfl | hmem
        · exact hnames.1 hother
        · exact hnew other (List.mem_cons_of_mem _ hother) hmem
      obtain ⟨names, hgathers⟩ := ih (name :: seen) hnames.2 hrest
      refine ⟨names, .cons ?_ hgathers⟩
      intro rest hclosed
      rw [List.cons_append, readMember]
      simp only [hknown, hname, Bool.false_eq_true, if_false, colon,
        skipBlank_cons (b := ':'.toUInt8) rfl, if_true, Except.bind, hread rest hclosed]

theorem missing?_none (hfree : ∀ m ∈ r.members, m.required = false) (seen : List String) :
    r.missing? seen = none := by
  rw [missing?, Option.map_eq_none_iff, List.find?_eq_none]
  intro m hm
  simp [hfree m hm]

theorem reads_object {start u : σ} {ms : List (String × Json)} (h : Fills r d start ms u)
    (hnodup : (ms.map (·.1)).Nodup) (hfree : ∀ m ∈ r.members, m.required = false) :
    Reads (r.read start (d + 1)) (bytes (.object ms)) u := by
  intro rest _
  obtain ⟨names, hgathers⟩ := gathers_fills h [] hnodup (by simp)
  rw [bytes_object, List.cons_append, List.append_assoc, List.singleton_append, Record.read,
    skipBlank_cons (b := '\x7b'.toUInt8) rfl]
  simp only [if_true, readObject, members_joinText hgathers, missing?_none hfree]

end Record

end JoseTokens.Json
