import JoseTokens.Proofs.Store.File
import JoseTokens.Proofs.Store.Memory

namespace JoseTokens

open FileTree (Takes)

/-- What a call needs of the files below a directory: names that stay single names, and paths that
can be looked for. A save also needs the path of the file beside. -/
def StoreCall.Fits (base : Path) : StoreCall → Prop
  | .save r _ => FileStore.isFileName r.name = true ∧ Takes (base ++ [r.storage.text] ++
      [r.name ++ FileStore.ending ++ FileStore.temporaryEnding])
  | .get r _ => FileStore.isFileName r.name = true ∧
      Takes (base ++ [r.storage.text] ++ [r.name ++ FileStore.ending])
  | .list storage _ => Takes (base ++ [storage.text])

instance (base : Path) : DecidablePred (StoreCall.Fits base)
  | .save _ _ => inferInstanceAs (Decidable (_ ∧ _))
  | .get _ _ => inferInstanceAs (Decidable (_ ∧ _))
  | .list storage _ => inferInstanceAs (Decidable (Takes (base ++ [storage.text])))

namespace KeyStore

def Admits : KeyStore → StoreCall → Prop
  | .memory _, _ => True
  | .file s, call => call.Fits s.base

def Refines (m : KeyMap) : KeyStore → Prop
  | .memory s => s.Holds m
  | .file s => s.Holds m

structure KeepsOthers (s : KeyStore) (r : Reference) (key : Jwk) : Prop where
  found : ∀ r' o, s.Admits (.get r' o) → ¬ (r'.storage = r.storage ∧ r'.name = r.name) →
    (s.save r key).2.get r' o = s.get r' o
  listed : ∀ storage o, s.Admits (.list storage o) → ∃ before after,
    s.list storage o = .ok before ∧ (s.save r key).2.list storage o = .ok after ∧
      ∀ name, ¬ (storage = r.storage ∧ name = r.name) →
        ∀ listing, (name, listing) ∈ after ↔ (name, listing) ∈ before

structure Agrees (s : KeyStore) (calls : List StoreCall) : Prop where
  answers : KeyMap.Runs KeyMap.empty calls (s.answers calls) (KeyMap.afterCalls calls)
  others : ∀ r key, s.Admits (.save r key) → (s.after calls).KeepsOthers r key

section

variable {s : KeyStore} {m : KeyMap}

theorem Refines.save (h : s.Refines m) {r : Reference} {key : Jwk}
    (hadmits : s.Admits (.save r key)) :
    (s.save r key).1 = .ok () ∧ (s.save r key).2.Refines (m.push r key) := by
  cases s with
  | memory s => exact ⟨rfl, MemoryStore.Holds.save h r key⟩
  | file s =>
      obtain ⟨hname, htakes⟩ := hadmits
      obtain ⟨tree, hsave, hholds⟩ := FileStore.Holds.save h hname htakes key
      rw [KeyStore.save]
      simp only [hsave]
      exact ⟨trivial, hholds⟩

theorem Refines.get (h : s.Refines m) {r : Reference} {o : StoreOptions}
    (hadmits : s.Admits (.get r o)) : (s.get r o).map Container.keys = m.found r o := by
  cases s with
  | memory s => exact MemoryStore.Holds.get h r o
  | file s => exact FileStore.Holds.get h hadmits.1 hadmits.2 o

theorem Refines.list (h : s.Refines m) {storage : StorageClass} {o : StoreOptions}
    (hadmits : s.Admits (.list storage o)) :
    ∃ entries, s.list storage o = .ok entries ∧ m.Listed storage o entries := by
  cases s with
  | memory s => exact ⟨_, rfl, MemoryStore.Holds.list h storage o⟩
  | file s => exact FileStore.Holds.list h o hadmits

theorem admits_save (s : KeyStore) (r : Reference) (key : Jwk) :
    (s.save r key).2.Admits = s.Admits := by
  cases s with
  | memory s => rfl
  | file s =>
      have hbase : (s.save r key).2.base = s.base := by
        rw [FileStore.save]
        simp only
        split <;> rfl
      funext call
      change call.Fits (s.save r key).2.base = call.Fits s.base
      rw [hbase]

theorem admits_perform (s : KeyStore) (call : StoreCall) :
    (s.perform call).2.Admits = s.Admits := by
  cases call with
  | save r key => exact s.admits_save r key
  | get r o => rfl
  | list storage o => rfl

theorem Refines.perform (h : s.Refines m) {call : StoreCall} (hadmits : s.Admits call) :
    ∃ m', m.Step call (s.perform call).1 m' ∧ (s.perform call).2.Refines m' := by
  cases call with
  | save r key =>
      obtain ⟨hsaved, hrefines⟩ := h.save hadmits
      refine ⟨m.push r key, ?_, hrefines⟩
      rw [KeyStore.perform]
      simp only [hsaved]
      exact .save r key
  | get r o =>
      refine ⟨m, ?_, h⟩
      rw [KeyStore.perform, h.get hadmits]
      exact .get r o
  | list storage o =>
      obtain ⟨entries, hentries, hlisted⟩ := h.list hadmits
      refine ⟨m, ?_, h⟩
      rw [KeyStore.perform, hentries]
      exact .list hlisted

theorem Refines.run (h : s.Refines m) {calls : List StoreCall}
    (hadmits : ∀ call ∈ calls, s.Admits call) :
    ∃ m', KeyMap.Runs m calls (s.answers calls) m' ∧ (s.after calls).Refines m' ∧
      (s.after calls).Admits = s.Admits := by
  induction calls generalizing s m with
  | nil => exact ⟨m, .nil m, h, rfl⟩
  | cons call calls ih =>
      obtain ⟨hcall, hcalls⟩ := List.forall_mem_cons.mp hadmits
      obtain ⟨m', hstep, hrefines⟩ := h.perform hcall
      have hsame := s.admits_perform call
      obtain ⟨m'', hruns, hlast, hadmits'⟩ := ih hrefines (hsame ▸ hcalls)
      exact ⟨m'', .cons hstep hruns, hlast, hadmits'.trans hsame⟩

end

end KeyStore

end JoseTokens
