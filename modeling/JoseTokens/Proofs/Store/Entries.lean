import Mathlib.Data.List.Nodup

namespace JoseTokens.Entries

variable {κ α : Type}

def keys (entries : List (κ × α)) : List κ :=
  entries.map (·.1)

section

variable [DecidableEq κ] {entries : List (κ × α)} {key : κ} {f : Option α → α}

def change (key : κ) (f : Option α → α) : List (κ × α) → List (κ × α)
  | [] => [(key, f none)]
  | (k, x) :: rest => if k = key then (k, f (some x)) :: rest else (k, x) :: change key f rest

theorem keys_change_old (h : key ∈ keys entries) :
    keys (change key f entries) = keys entries := by
  induction entries with
  | nil => cases h
  | cons entry entries ih =>
      obtain ⟨k, x⟩ := entry
      rw [change]
      split
      · rfl
      next hk =>
        have hrest : key ∈ keys entries := (List.mem_cons.mp h).resolve_left (Ne.symm hk)
        exact congrArg (k :: ·) (ih hrest)

theorem change_new (h : key ∉ keys entries) :
    change key f entries = entries ++ [(key, f none)] := by
  induction entries with
  | nil => rfl
  | cons entry entries ih =>
      obtain ⟨k, x⟩ := entry
      obtain ⟨hk, hrest⟩ := not_or.mp (List.mem_cons.not.mp h)
      rw [change, if_neg (Ne.symm hk), ih hrest, List.cons_append]

theorem nodup_keys_change (h : (keys entries).Nodup) :
    (keys (change key f entries)).Nodup := by
  by_cases hkey : key ∈ keys entries
  · rwa [keys_change_old hkey]
  · rw [change_new hkey, keys, List.map_append]
    exact h.append (List.nodup_singleton key) (by simpa using hkey)

end

section

variable [BEq κ]

def lookUp (entries : List (κ × α)) (key : κ) : Option α :=
  (entries.find? fun (k, _) => k == key).map (·.2)

variable [LawfulBEq κ] {entries : List (κ × α)} {key : κ}

theorem isSome_lookUp : (lookUp entries key).isSome = true ↔ key ∈ keys entries := by
  simp [lookUp, keys]

variable [DecidableEq κ]

theorem lookUp_cons (entry : κ × α) (entries : List (κ × α)) (key : κ) :
    lookUp (entry :: entries) key = if entry.1 = key then some entry.2 else lookUp entries key := by
  by_cases h : entry.1 = key <;> simp [lookUp, h]

theorem lookUp_eq_some_iff (hnodup : (keys entries).Nodup) {x : α} :
    lookUp entries key = some x ↔ (key, x) ∈ entries := by
  induction entries with
  | nil => simp [lookUp]
  | cons entry entries ih =>
      obtain ⟨hnew, hnodup⟩ := List.nodup_cons.mp hnodup
      rw [lookUp_cons, List.mem_cons]
      by_cases h : entry.1 = key
      · subst h
        have hother : (entry.1, x) ∉ entries := fun hx => hnew (List.mem_map_of_mem (f := (·.1)) hx)
        simp [hother, Prod.ext_iff, eq_comm]
      · rw [if_neg h, ih hnodup]
        have hne : (key, x) ≠ entry := fun heq => h (heq ▸ rfl)
        simp [hne]

theorem lookUp_without (key other : κ) (entries : List (κ × α)) :
    lookUp (entries.filter fun (k, _) => k != key) other =
      if key = other then none else lookUp entries other := by
  induction entries with
  | nil => simp [lookUp]
  | cons entry entries ih =>
      by_cases hkey : entry.1 = key
      · rw [List.filter_cons_of_neg (by simpa using hkey), ih, lookUp_cons, hkey]
        split <;> rfl
      · rw [List.filter_cons_of_pos (by simpa using hkey), lookUp_cons, lookUp_cons, ih]
        by_cases hother : entry.1 = other
        · simp [← hother, Ne.symm hkey]
        · simp [hother]

theorem lookUp_change (key other : κ) (f : Option α → α) (entries : List (κ × α)) :
    lookUp (change key f entries) other =
      if key = other then some (f (lookUp entries key)) else lookUp entries other := by
  induction entries with
  | nil => rw [change, lookUp_cons]; rfl
  | cons entry entries ih =>
      obtain ⟨k, x⟩ := entry
      rw [change]
      by_cases hk : k = key
      · subst hk
        simp only [if_true, lookUp_cons]
        split <;> rfl
      · rw [if_neg hk, lookUp_cons, lookUp_cons, lookUp_cons, if_neg hk, ih]
        by_cases hother : key = other
        · simp [← hother, hk]
        · simp [hother]

end

end JoseTokens.Entries
