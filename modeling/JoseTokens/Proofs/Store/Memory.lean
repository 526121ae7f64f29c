import JoseTokens.Proofs.Store.Entries
import JoseTokens.Proofs.Store.KeyMap

namespace JoseTokens.MemoryStore

open Entries

abbrev Slot := StorageClass × String

theorem saveIn_eq (slot : Slot) (key : Jwk) (entries : List (Slot × Container)) :
    saveIn slot key entries = change slot
      (fun | some c => c.push key | none => ⟨key, []⟩) entries := by
  induction entries with
  | nil => rfl
  | cons entry entries ih =>
      obtain ⟨other, c⟩ := entry
      rw [saveIn, change, ih]

structure Holds (s : MemoryStore) (m : KeyMap) : Prop where
  nodup : (keys s.entries).Nodup
  versions : ∀ storage name, lookUp s.entries (storage, name) = KeyMap.held (m storage name)

section

variable {s : MemoryStore} {m : KeyMap}

theorem Holds.save (h : Holds s m) (r : Reference) (key : Jwk) :
    Holds (s.save r key) (m.push r key) where
  nodup := by
    rw [MemoryStore.save, saveIn_eq]
    exact nodup_keys_change h.nodup
  versions := by
    intro storage name
    rw [MemoryStore.save, saveIn_eq, lookUp_change, slot, h.versions, h.versions, KeyMap.push]
    by_cases hslot : storage = r.storage ∧ name = r.name
    · obtain ⟨rfl, rfl⟩ := hslot
      rw [if_pos rfl, if_pos ⟨rfl, rfl⟩]
      exact (KeyMap.held_push (m r.storage r.name) key).symm
    · have hne : (r.storage, r.name) ≠ (storage, name) := by
        rintro ⟨⟩
        exact hslot ⟨rfl, rfl⟩
      rw [if_neg hne, if_neg hslot]

theorem Holds.get (h : Holds s m) (r : Reference) (o : StoreOptions) :
    (s.get r o).map Container.keys = m.found r o := by
  refine KeyMap.found_of_held ?_
  rw [← h.versions]
  rfl

def classEntries (s : MemoryStore) (storage : StorageClass) (o : StoreOptions) :
    List (String × Listing) :=
  s.entries.filterMap fun ((c, name), container) =>
    if c = storage then some (name, o.listing container) else none

theorem names_classEntries (s : MemoryStore) (storage : StorageClass) (o : StoreOptions) :
    (s.classEntries storage o).map (·.1) =
      ((keys s.entries).filter fun slot => slot.1 = storage).map (·.2) := by
  rw [classEntries, keys]
  induction s.entries with
  | nil => rfl
  | cons entry entries ih =>
      obtain ⟨⟨c, name⟩, container⟩ := entry
      by_cases hclass : c = storage <;> simp [hclass, ih]

theorem mem_classEntries {storage : StorageClass} {o : StoreOptions} {name : String}
    {listing : Listing} : (name, listing) ∈ s.classEntries storage o ↔
      ∃ c, ((storage, name), c) ∈ s.entries ∧ listing = o.listing c := by
  rw [classEntries, List.mem_filterMap]
  constructor
  · rintro ⟨⟨⟨class', name'⟩, c⟩, hc, heq⟩
    by_cases hclass : class' = storage
    · simp only [hclass, if_true, Option.some.injEq, Prod.mk.injEq] at heq
      obtain ⟨rfl, rfl⟩ := heq
      exact ⟨c, hclass ▸ hc, rfl⟩
    · simp [hclass] at heq
  · rintro ⟨c, hc, rfl⟩
    exact ⟨_, hc, by simp⟩

theorem Holds.list (h : Holds s m) (storage : StorageClass) (o : StoreOptions) :
    m.Listed storage o (s.list storage o) := by
  change m.Listed storage o (Listing.sorted (s.classEntries storage o))
  refine KeyMap.listed_sorted ?_ fun name listing => ?_
  · rw [names_classEntries]
    refine (h.nodup.filter _).map_on fun a ha b hb heq => Prod.ext ?_ heq
    rw [of_decide_eq_true (List.mem_filter.mp ha).2, of_decide_eq_true (List.mem_filter.mp hb).2]
  · rw [mem_classEntries]
    simp only [← lookUp_eq_some_iff h.nodup, h.versions]

end

end JoseTokens.MemoryStore
