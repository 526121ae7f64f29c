import JoseTokens.Json.Value
import Mathlib.Data.List.Nodup

namespace JoseTokens.Json

variable {α : Type}

theorem find?_put_self (name : String) (x : α) (done : List (String × α)) :
    find? name (put name x done) = some x := by
  induction done with
  | nil => simp [put, find?]
  | cons m done ih =>
      by_cases hm : m.1 = name
      · rw [put, if_pos hm, find?, if_pos hm]
      · rw [put, if_neg hm, find?, if_neg hm, ih]

theorem find?_put_other {name other : String} (h : name ≠ other) (x : α)
    (done : List (String × α)) : find? other (put name x done) = find? other done := by
  induction done with
  | nil => simp [put, find?, h]
  | cons m done ih =>
      by_cases hm : m.1 = name
      · have hother : m.1 ≠ other := fun heq => h (hm.symm.trans heq)
        rw [put, if_pos hm, find?, if_neg hother, find?, if_neg hother]
      · rw [put, if_neg hm, find?, find?, ih]

theorem isSome_find?_iff (name : String) (ms : List (String × α)) :
    (find? name ms).isSome = true ↔ name ∈ ms.map (·.1) := by
  induction ms with
  | nil => simp [find?]
  | cons m ms ih =>
      by_cases hm : m.1 = name
      · simp [find?, hm]
      · simp [find?, hm, Ne.symm hm, ih]

theorem put_new (name : String) (x : α) (done : List (String × α))
    (h : name ∉ done.map (·.1)) : put name x done = done ++ [(name, x)] := by
  induction done with
  | nil => rfl
  | cons m done ih =>
      have hkey : m.1 ≠ name := fun heq => h (by simp [heq])
      have hdone : name ∉ done.map (·.1) := fun hmem => h (List.mem_cons_of_mem _ hmem)
      rw [put, if_neg hkey, ih hdone, List.cons_append]

theorem mem_put {name : String} {x : α} {done : List (String × α)} {m : String × α}
    (h : m ∈ put name x done) : m.2 = x ∨ m ∈ done := by
  induction done with
  | nil =>
      have hm : m = (name, x) := by simpa [put] using h
      exact .inl (by rw [hm])
  | cons first done ih =>
      by_cases hname : first.1 = name
      · rw [put, if_pos hname] at h
        rcases List.mem_cons.mp h with rfl | h
        · exact .inl rfl
        · exact .inr (List.mem_cons_of_mem _ h)
      · rw [put, if_neg hname] at h
        rcases List.mem_cons.mp h with rfl | h
        · exact .inr List.mem_cons_self
        · exact (ih h).imp id (List.mem_cons_of_mem _)

theorem names_put_old {name : String} (x : α) {done : List (String × α)}
    (h : name ∈ done.map (·.1)) : (put name x done).map (·.1) = done.map (·.1) := by
  induction done with
  | nil => simp at h
  | cons m done ih =>
      by_cases hm : m.1 = name
      · rw [put, if_pos hm, List.map_cons, List.map_cons]
      · have hdone : name ∈ done.map (·.1) := by
          rcases List.mem_cons.mp h with heq | h
          · exact absurd heq.symm hm
          · exact h
        rw [put, if_neg hm, List.map_cons, List.map_cons, ih hdone]

theorem nodup_put (name : String) (x : α) {done : List (String × α)}
    (h : (done.map (·.1)).Nodup) : ((put name x done).map (·.1)).Nodup := by
  by_cases hname : name ∈ done.map (·.1)
  · rw [names_put_old x hname]
    exact h
  · rw [put_new name x done hname, List.map_append]
    exact h.append (List.nodup_singleton name) (by simpa using hname)

end JoseTokens.Json
