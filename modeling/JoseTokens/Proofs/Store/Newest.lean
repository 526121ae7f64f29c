import JoseTokens.Proofs.Store.Memory
import JoseTokens.Proofs.Store.SaveSteps

namespace JoseTokens

namespace FileTree

variable {t : FileTree}

theorem rename_eq_ok {moved : FileTree} {source target : Path}
    (h : t.rename source target = .ok moved) : ∃ data, t.locate source = .ok (.file data) ∧
      moved = (t.put target (.file data)).without source := by
  rw [rename] at h
  split at h
  next data _ hsource _ =>
    cases h
    exact ⟨data, hsource, rfl⟩
  next data hsource _ =>
    cases h
    exact ⟨data, hsource, rfl⟩
  · cases h
  · cases h

end FileTree

namespace FileStore

open FileTree

variable {s s' : FileStore} {r : Reference} {key : Jwk}

theorem steps_cons_true {step : FileTree → Except Fault FileTree}
    {rest : List (FileTree → Except Fault FileTree)} {t last : FileTree}
    (h : steps (step :: rest) t = (true, last)) :
    ∃ next, step t = .ok next ∧ steps rest next = (true, last) := by
  rw [steps] at h
  cases hstep : step t with
  | ok next =>
      rw [hstep] at h
      exact ⟨next, rfl, h⟩
  | error fault =>
      rw [hstep] at h
      cases h

theorem replaced_of_steps {t last : FileTree} {dir : Path} {file : String} {data : Bytes}
    (h : steps (saveSteps (dir ++ [file]) data) t = (true, last)) :
    ∃ made : FileTree, made.Leads dir ∧ Takes (dir ++ [file]) ∧
      last = replaced made (dir ++ [file]) data := by
  obtain ⟨made, hmade, h⟩ := steps_cons_true h
  obtain ⟨beside, hbeside, h⟩ := steps_cons_true h
  obtain ⟨moved, hmoved, h⟩ := steps_cons_true h
  cases h
  rw [List.dropLast_concat] at hmade
  obtain ⟨hleads, hdir, -⟩ := of_makeDirectories hmade
  obtain ⟨-, hfree, rfl⟩ := write_eq_ok hbeside
  obtain ⟨found, hsource, rfl⟩ := rename_eq_ok hmoved
  have hdata : found = data := by
    have hput : (made.put (temporary (dir ++ [file])) (.file data)).find?
        (temporary (dir ++ [file])) = some (.file data) :=
      find?_put_self made (.file data) (by simp [temporary])
    rw [find?_of_locate hsource] at hput
    cases hput
    rfl
  rw [temporary_child] at hfree
  exact ⟨made, hleads, (hfree.takes hleads hdir).last, hdata ▸ rfl⟩

theorem replaced_of_save (h : s.save r key = (.ok (), s')) : ∃ old made,
    isFileName r.name = true ∧ s.load (s.filePath r.storage (r.name ++ ending)) = .ok old ∧
      made.Leads (s.classPath r.storage) ∧ Takes (s.filePath r.storage (r.name ++ ending)) ∧
      s' = ⟨replaced made (s.filePath r.storage (r.name ++ ending)) (render (added old key)),
        s.base⟩ := by
  by_cases hname : isFileName r.name = true
  · cases hload : s.load (s.filePath r.storage (r.name ++ ending)) with
    | error e =>
        rw [save_unloaded hname hload] at h
        cases h
    | ok old =>
        cases hsteps : steps (saveSteps (s.filePath r.storage (r.name ++ ending))
            (render (added old key))) s.tree with
        | mk done tree =>
            rw [save_of_steps hname hload hsteps] at h
            cases done with
            | false => cases h
            | true =>
                cases h
                obtain ⟨made, hleads, htakes, rfl⟩ := replaced_of_steps hsteps
                exact ⟨old, made, hname, rfl, hleads, htakes, rfl⟩
  · rw [save_unnamed hname] at h
    cases h

theorem save_eq_ok (h : s.save r key = (.ok (), s')) : ∃ old,
    (∀ o, s.get r o = found r o old) ∧ ∀ o, s'.get r o = found r o (some (added old key)) := by
  obtain ⟨old, made, hname, hload, hleads, htakes, rfl⟩ := replaced_of_save h
  exact ⟨old, get_of_load hname hload,
    get_of_load hname (load_replaced s hleads htakes (added old key))⟩

end FileStore

namespace MemoryStore

theorem get_eq_found (s : MemoryStore) (r : Reference) (o : StoreOptions) :
    s.get r o = FileStore.found r o (s.find? r) := by
  rw [MemoryStore.get]
  cases s.find? r <;> rfl

theorem find?_save (s : MemoryStore) (r : Reference) (key : Jwk) :
    (s.save r key).find? r = some (FileStore.added (s.find? r) key) := by
  have hfind : ∀ s : MemoryStore, s.find? r = Entries.lookUp s.entries (slot r) := fun _ => rfl
  rw [hfind, hfind, MemoryStore.save, saveIn_eq, Entries.lookUp_change, if_pos rfl]
  rfl

end MemoryStore

namespace KeyStore

def OnTop (s : KeyStore) (r : Reference) (key : Jwk) (s' : KeyStore) : Prop :=
  ∃ old, (∀ o, s.get r o = FileStore.found r o old) ∧
    ∀ o, s'.get r o = FileStore.found r o (some (FileStore.added old key))

theorem onTop_memory (s : MemoryStore) (r : Reference) (key : Jwk) :
    OnTop (.memory s) r key (.memory (s.save r key)) := by
  refine ⟨s.find? r, s.get_eq_found r, fun o => ?_⟩
  rw [← MemoryStore.find?_save]
  exact (s.save r key).get_eq_found r o

theorem onTop_of_save {s s' : KeyStore} {r : Reference} {key : Jwk}
    (h : s.save r key = (.ok (), s')) : OnTop s r key s' := by
  cases s with
  | memory s =>
      cases h
      exact onTop_memory s r key
  | file s =>
      cases hsave : s.save r key with
      | mk result made =>
          rw [KeyStore.save] at h
          simp only [hsave] at h
          cases h
          exact FileStore.save_eq_ok hsave

theorem OnTop.latest {s s' : KeyStore} {r : Reference} {key : Jwk} (h : OnTop s r key s') :
    s'.latest r = .ok key := by
  obtain ⟨old, -, hget⟩ := h
  rw [KeyStore.latest, hget]
  cases old <;> rfl

end KeyStore

end JoseTokens
