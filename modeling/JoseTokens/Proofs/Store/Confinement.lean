import JoseTokens.Proofs.Store.FileNames
import JoseTokens.Proofs.Store.Footprint
import JoseTokens.Proofs.Store.Interruption

namespace JoseTokens

namespace FileStore

open FileTree

def footprint (s : FileStore) (r : Reference) : Footprint :=
  match s.keyPath r with
  | .ok path => ⟨[path, temporary path], [s.classPath r.storage]⟩
  | .error _ => {}

def callFootprint (s : FileStore) : StoreCall → Footprint
  | .save r _ => s.footprint r
  | .get _ _ => {}
  | .list _ _ => {}

/-- A path to the file of a reference. Both files are in the directory of the class, the one beside
has the other one's stem, and what a get or a save does depends on nothing but what stands on the way
to them. A save changes nothing else, and after one that succeeded the file beside is gone. -/
structure Confined (s : FileStore) (r : Reference) (path : Path) : Prop where
  keyPath : s.keyPath r = .ok path
  files : (s.footprint r).files = [path, withExtension path "json.tmp"]
  directory : IsChild s.base (s.classPath r.storage)
  children : ∀ file ∈ (s.footprint r).files, IsChild (s.classPath r.storage) file
  get_reads : ∀ t t' o, (∀ p, p <+: path → t'.find? p = t.find? p) →
    FileStore.get ⟨t', s.base⟩ r o = FileStore.get ⟨t, s.base⟩ r o
  save_reads : ∀ t t' key, (s.footprint r).Agree t t' →
    (FileStore.save ⟨t, s.base⟩ r key).1 = (FileStore.save ⟨t', s.base⟩ r key).1 ∧
      (s.footprint r).Agree (FileStore.save ⟨t, s.base⟩ r key).2.tree
        (FileStore.save ⟨t', s.base⟩ r key).2.tree
  save_writes : ∀ t key, (s.footprint r).Spares t (FileStore.save ⟨t, s.base⟩ r key).2.tree
  saved : ∀ t key s', FileStore.save ⟨t, s.base⟩ r key = (.ok (), s') →
    (∃ data, s'.tree.find? path = some (.file data)) ∧
      s'.tree.find? (withExtension path "json.tmp") = none

structure Rejected (s : FileStore) (r : Reference) : Prop where
  get : ∀ t o, FileStore.get ⟨t, s.base⟩ r o = .error (.invalidArgument (.fileName r.name))
  save : ∀ t key, FileStore.save ⟨t, s.base⟩ r key =
    (.error (.invalidArgument (.fileName r.name)), ⟨t, s.base⟩)

structure KeepsApart (s : FileStore) : Prop where
  confined : ∀ r, NameFits r.name → ∃ path, s.Confined r path
  rejected : ∀ r, ¬ NameFits r.name → s.Rejected r
  disjoint : ∀ r r', ¬ (r'.storage = r.storage ∧ r'.name = r.name) →
    ((s.footprint r).files.map Path.spelled).Disjoint ((s.footprint r').files.map Path.spelled)
  runs : ∀ calls, ∃ tree, (KeyStore.file s).after calls = .file ⟨tree, s.base⟩ ∧
    (Footprint.union (calls.map s.callFootprint)).Spares s.tree tree

variable {s : FileStore} {r : Reference} {t t' : FileTree}

theorem footprint_fits (s : FileStore) (hname : NameFits r.name) : s.footprint r =
    ⟨[s.filePath r.storage (r.name ++ ending),
      s.filePath r.storage (r.name ++ ending ++ temporaryEnding)], [s.classPath r.storage]⟩ := by
  rw [footprint, keyPath_eq (nameFits_iff.mp hname)]
  simp only [temporary_filePath]

theorem footprint_unfit (s : FileStore) (hname : ¬ NameFits r.name) : s.footprint r = {} := by
  rw [footprint, keyPath_unnamed fun h => hname (nameFits_iff.mpr h)]

theorem isEntry_text (storage : StorageClass) : IsEntry storage.text := by
  cases storage
  · exact ⟨by decide, by decide, by decide, by decide⟩
  · exact ⟨by decide, by decide, by decide, by decide⟩

theorem spelled_filePath (s : FileStore) (storage : StorageClass) {file : String}
    (hfile : IsEntry file) :
    (s.filePath storage file).spelled = filePath ⟨s.tree, s.base.spelled⟩ storage file := by
  rw [filePath, Path.spelled_child _ hfile, classPath, Path.spelled_child _ (isEntry_text storage)]
  rfl

theorem mem_spelled {path : Path} (h : path ∈ (s.footprint r).files.map Path.spelled) :
    ∃ file, path = filePath ⟨s.tree, s.base.spelled⟩ r.storage file ∧
      (file = r.name ++ ending ∨ file = r.name ++ ending ++ temporaryEnding) := by
  by_cases hname : NameFits r.name
  · rw [footprint_fits s hname, List.map_cons, List.map_singleton,
      spelled_filePath s _ hname.isEntry_file, spelled_filePath s _ hname.isEntry_beside] at h
    rcases List.mem_pair.mp h with rfl | rfl
    · exact ⟨_, rfl, .inl rfl⟩
    · exact ⟨_, rfl, .inr rfl⟩
  · rw [footprint_unfit s hname] at h
    cases h

theorem temporaryEnding_injective {file other : String}
    (h : file ++ temporaryEnding = other ++ temporaryEnding) : file = other := by
  have hletters := congrArg String.toList h
  rw [String.toList_append, String.toList_append] at hletters
  exact String.toList_injective (List.append_cancel_right hletters)

theorem footprint_disjoint (s : FileStore) {r r' : Reference}
    (hne : ¬ (r'.storage = r.storage ∧ r'.name = r.name)) :
    ((s.footprint r).files.map Path.spelled).Disjoint
      ((s.footprint r').files.map Path.spelled) := by
  intro path hpath hpath'
  obtain ⟨file, rfl, hfile⟩ := mem_spelled hpath
  obtain ⟨file', hsame, hfile'⟩ := mem_spelled hpath'
  obtain ⟨hstorage, rfl⟩ := filePath_inj.mp hsame
  have hnames : r.name ≠ r'.name := fun h => hne ⟨hstorage.symm, h.symm⟩
  -- The endings tell a key's file from a file beside one; of two alike, the names are the same.
  rcases hfile with rfl | rfl
  · rcases hfile' with hfile' | hfile'
    · exact hnames (ending_injective hfile')
    · exact ending_ne_temporary _ _ hfile'
  · rcases hfile' with hfile' | hfile'
    · exact ending_ne_temporary _ _ hfile'.symm
    · exact hnames (ending_injective (temporaryEnding_injective hfile'))

theorem get_of_agree (hname : NameFits r.name)
    (h : ∀ p, p <+: s.filePath r.storage (r.name ++ ending) → t'.find? p = t.find? p)
    (o : StoreOptions) : FileStore.get ⟨t', s.base⟩ r o = FileStore.get ⟨t, s.base⟩ r o := by
  have hload : load ⟨t', s.base⟩ (s.filePath r.storage (r.name ++ ending)) =
      load ⟨t, s.base⟩ (s.filePath r.storage (r.name ++ ending)) :=
    load_congr (s := ⟨t, s.base⟩) (locate_congr h)
  have hfile := nameFits_iff.mp hname
  rw [FileStore.get, FileStore.get, keyPath_eq hfile, keyPath_eq hfile]
  simp only [bind, Except.bind, filePath_with, hload]

theorem bounds_saveSteps (s : FileStore) (hname : NameFits r.name) (data : Bytes) :
    ∀ step ∈ saveSteps (s.filePath r.storage (r.name ++ ending)) data,
      (s.footprint r).Bounds step := by
  rw [footprint_fits s hname, saveSteps, dropLast_filePath, temporary_filePath]
  refine List.forall_mem_cons.mpr ⟨?_, List.forall_mem_cons.mpr ⟨?_, ?_⟩⟩
  · exact Footprint.bounds_makeDirectories (by simp)
  · exact Footprint.bounds_write (by simp) data
  · exact List.forall_mem_singleton.mpr (Footprint.bounds_rename (by simp) (by simp))

theorem save_agree (hname : NameFits r.name) (hagree : (s.footprint r).Agree t t') (key : Jwk) :
    (FileStore.save ⟨t, s.base⟩ r key).1 = (FileStore.save ⟨t', s.base⟩ r key).1 ∧
      (s.footprint r).Agree (FileStore.save ⟨t, s.base⟩ r key).2.tree
        (FileStore.save ⟨t', s.base⟩ r key).2.tree := by
  have hfile := nameFits_iff.mp hname
  have hreaches : (s.footprint r).Reaches (s.filePath r.storage (r.name ++ ending)) := by
    rw [footprint_fits s hname]
    exact Footprint.reaches_file List.mem_cons_self
  have hsame := load_congr (s := ⟨t, s.base⟩) (hagree.locate hreaches)
  cases hload : load ⟨t, s.base⟩ (s.filePath r.storage (r.name ++ ending)) with
  | error e =>
      rw [save_unloaded hfile hload, save_unloaded hfile (hsame.trans hload)]
      exact ⟨rfl, hagree⟩
  | ok old =>
      have hagrees :=
        Footprint.steps_agree (bounds_saveSteps s hname (render (added old key))) hagree
      cases hsteps : steps (saveSteps (s.filePath r.storage (r.name ++ ending))
          (render (added old key))) t with
      | mk done tree =>
          cases hsteps' : steps (saveSteps (s.filePath r.storage (r.name ++ ending))
              (render (added old key))) t' with
          | mk done' tree' =>
              rw [hsteps, hsteps'] at hagrees
              obtain ⟨rfl, htree⟩ := hagrees
              rw [save_of_steps hfile hload hsteps,
                save_of_steps hfile (hsame.trans hload) hsteps']
              exact ⟨rfl, htree⟩

theorem save_spares (s : FileStore) (r : Reference) (key : Jwk) :
    (s.footprint r).Spares s.tree (s.save r key).2.tree := by
  by_cases hname : NameFits r.name
  · have hfile := nameFits_iff.mp hname
    cases hload : s.load (s.filePath r.storage (r.name ++ ending)) with
    | error e =>
        rw [save_unloaded hfile hload]
        exact .refl _ _
    | ok old =>
        rw [save_of_steps hfile hload rfl]
        exact Footprint.steps_spares (bounds_saveSteps s hname _) s.tree
  · rw [save_unnamed (fun h => hname (nameFits_iff.mpr h))]
    exact .refl _ _

theorem find?_of_save {s' : FileStore} {key : Jwk} (h : s.save r key = (.ok (), s')) :
    (∃ data, s'.tree.find? (s.filePath r.storage (r.name ++ ending)) = some (.file data)) ∧
      s'.tree.find? (s.filePath r.storage (r.name ++ ending ++ temporaryEnding)) = none := by
  obtain ⟨old, made, -, -, -, -, rfl⟩ := replaced_of_save h
  refine ⟨⟨render (added old key), ?_⟩, ?_⟩
  · refine (find?_replaced (s.filePath_ne_nil _ _) _).trans ?_
    exact (if_neg (s.filePath_ne_temporary _ _).symm).trans (if_pos rfl)
  · refine (find?_replaced (s.filePath_ne_nil _ _) _).trans (if_pos ?_)
    exact temporary_filePath s r.storage (r.name ++ ending)

theorem confined_of_fits (s : FileStore) (hname : NameFits r.name) :
    s.Confined r (s.filePath r.storage (r.name ++ ending)) := by
  have hfootprint := footprint_fits s hname
  have hbeside : s.filePath r.storage (r.name ++ ending ++ temporaryEnding) =
      withExtension (s.filePath r.storage (r.name ++ ending)) "json.tmp" := by
    rw [← temporary_filePath]
    exact temporary_eq_withExtension _ hname
  refine
    { keyPath := keyPath_eq (nameFits_iff.mp hname)
      files := by rw [hfootprint, hbeside]
      directory := isChild_concat s.base (isEntry_text r.storage)
      children := fun file hfile => ?_
      get_reads := fun t t' o h => get_of_agree hname h o
      save_reads := fun t t' key h => save_agree hname h key
      save_writes := fun t key => save_spares ⟨t, s.base⟩ r key
      saved := fun t key s' h => hbeside ▸ find?_of_save (s := ⟨t, s.base⟩) h }
  rw [hfootprint] at hfile
  rcases List.mem_pair.mp hfile with rfl | rfl
  · exact isChild_concat _ hname.isEntry_file
  · exact isChild_concat _ hname.isEntry_beside

theorem rejected_of_unfit (s : FileStore) (hname : ¬ NameFits r.name) : s.Rejected r where
  get := fun _ o => get_unnamed (fun h => hname (nameFits_iff.mpr h)) o
  save := fun _ key => save_unnamed (fun h => hname (nameFits_iff.mpr h)) key

theorem perform_spares (s : FileStore) (call : StoreCall) :
    ∃ tree, ((KeyStore.file s).perform call).2 = .file ⟨tree, s.base⟩ ∧
      (s.callFootprint call).Spares s.tree tree := by
  cases call with
  | save r key =>
      refine ⟨(s.save r key).2.tree, ?_, save_spares s r key⟩
      rw [← save_with_base s r key]
      rfl
  | get r o => exact ⟨s.tree, rfl, .refl _ _⟩
  | list storage o => exact ⟨s.tree, rfl, .refl _ _⟩

theorem callFootprint_with (s : FileStore) (t : FileTree) :
    callFootprint ⟨t, s.base⟩ = s.callFootprint := by
  funext call
  cases call <;> rfl

theorem after_spares (s : FileStore) (calls : List StoreCall) :
    ∃ tree, (KeyStore.file s).after calls = .file ⟨tree, s.base⟩ ∧
      (Footprint.union (calls.map s.callFootprint)).Spares s.tree tree := by
  induction calls generalizing s with
  | nil => exact ⟨s.tree, rfl, .refl _ _⟩
  | cons call calls ih =>
      obtain ⟨next, hnext, hstep⟩ := s.perform_spares call
      obtain ⟨tree, hafter, hrest⟩ := ih ⟨next, s.base⟩
      rw [callFootprint_with] at hrest
      refine ⟨tree, ?_, (hstep.head _).trans (hrest.tail _)⟩
      rw [KeyStore.after, hnext, hafter]

theorem files_apart (s : FileStore) : s.KeepsApart where
  confined := fun _ hname => ⟨_, s.confined_of_fits hname⟩
  rejected := fun _ hname => s.rejected_of_unfit hname
  disjoint := fun _ _ hne => s.footprint_disjoint hne
  runs := s.after_spares

theorem files_apart_dotted :
    (emptyStore.footprint ⟨".json", .key, none⟩).files =
        [["keys", "key", ".json.json"], ["keys", "key", ".json.json.tmp"]] ∧
      emptyStore.Confined ⟨".json", .key, none⟩ ["keys", "key", ".json.json"] ∧
      ((emptyStore.footprint ⟨".json", .key, none⟩).files.map Path.spelled).Disjoint
        ((emptyStore.footprint ⟨".json.json.tmp", .key, none⟩).files.map Path.spelled) ∧
      emptyStore.Rejected ⟨"..\\a", .key, none⟩ := by
  have hname : NameFits ".json" := nameFits_iff.mpr (by decide)
  have hbackslash : ¬ NameFits "..\\a" := fun h => absurd (nameFits_iff.mp h) (by decide)
  obtain ⟨path, hconfined⟩ := (files_apart emptyStore).confined ⟨".json", .key, none⟩ hname
  obtain rfl : ["keys", "key", ".json.json"] = path := Except.ok.inj hconfined.keyPath
  refine ⟨rfl, hconfined, ?_, (files_apart emptyStore).rejected _ hbackslash⟩
  exact (files_apart emptyStore).disjoint _ _ (by decide)

end FileStore

end JoseTokens
