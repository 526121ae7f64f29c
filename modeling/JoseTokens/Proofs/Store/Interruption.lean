import JoseTokens.Proofs.Store.Refinement
import JoseTokens.Proofs.Store.SaveSteps

namespace JoseTokens

namespace FileStore

open FileTree

/-- The files at any point of a save before the renaming: some or all of the directories are there,
and maybe a part of the file beside. -/
inductive Interrupted (s : FileStore) (r : Reference) (key : Jwk) : FileTree → Prop
  | before : Interrupted s r key s.tree
  | making {path way : Path} {old : Option Container} {cut : FileTree} : s.keyPath r = .ok path →
      s.load path = .ok old → way <+: path.dropLast → s.tree.makeDirectories way = .ok cut →
      Interrupted s r key cut
  | writing {path : Path} {old : Option Container} {made cut : FileTree} {part : Bytes} :
      s.keyPath r = .ok path → s.load path = .ok old →
      s.tree.makeDirectories path.dropLast = .ok made → part <+: render (added old key) →
      made.write (temporary path) part = .ok cut → Interrupted s r key cut

def IsLong (name : String) : Prop :=
  maxNameSize < (name ++ ending).utf8ByteSize

/-- The second answer is the first one, but for a name that is too long for a file: without a
directory for its class it is not found, with one it cannot be looked for. -/
def AnsweredAlike (call : StoreCall) (answer answer' : StoreAnswer) : Prop :=
  answer' = answer ∨ ∃ r o, call = .get r o ∧ IsLong r.name ∧
    answer = .found (.error (.keyNotFound r)) ∧ answer' = .found (.error .io)

def Unnoticed (s s' : FileStore) : Prop :=
  ∀ calls call, AnsweredAlike call (((KeyStore.file s).after calls).perform call).1
    (((KeyStore.file s').after calls).perform call).1

structure Completed (s : FileStore) (r : Reference) (key : Jwk) (s' : FileStore) : Prop where
  found : ∃ old, (∀ o, s.get r o = found r o old) ∧
    ∀ o, s'.get r o = found r o (some (added old key))
  others : ∀ r' o, ¬ (r'.storage = r.storage ∧ r'.name = r.name) →
    s'.get r' o = s.get r' o ∨ IsLong r'.name ∧ s.get r' o = .error (.keyNotFound r') ∧
      s'.get r' o = .error .io

structure Atomic (s : FileStore) (r : Reference) (key : Jwk) : Prop where
  interrupted : ∀ cut, s.Interrupted r key cut → s.Unnoticed ⟨cut, s.base⟩
  renamed : ∀ path old made beside tree, s.keyPath r = .ok path → s.load path = .ok old →
    s.tree.makeDirectories path.dropLast = .ok made →
    made.write (temporary path) (render (added old key)) = .ok beside →
    beside.rename (temporary path) path = .ok tree → s.save r key = (.ok (), ⟨tree, s.base⟩)
  failed : ∀ e s', s.save r key = (.error e, s') →
    ∃ cut, s.Interrupted r key cut ∧ s' = ⟨cut, s.base⟩
  completed : ∀ s', s.save r key = (.ok (), s') → s.Completed r key s'

structure Alike (s : FileStore) (t' : FileTree) : Prop where
  classes : ∀ storage, t'.locate (s.classPath storage) = s.tree.locate (s.classPath storage) ∨
    s.tree.locate (s.classPath storage) = .error .notFound ∧
      t'.locate (s.classPath storage) = .ok .directory
  files : ∀ storage name, t'.find? (s.filePath storage (name ++ ending)) =
    s.tree.find? (s.filePath storage (name ++ ending))
  directories : ∀ storage file, t'.find? (s.filePath storage file) = some .directory ↔
    s.tree.find? (s.filePath storage file) = some .directory
  keyFiles : ∀ storage, keyFiles t' (s.classPath storage) = keyFiles s.tree (s.classPath storage)

variable {s : FileStore} {t' t'' : FileTree} {storage : StorageClass}

theorem Alike.refl (s : FileStore) : s.Alike s.tree where
  classes := fun _ => .inl rfl
  files := fun _ _ => rfl
  directories := fun _ _ => Iff.rfl
  keyFiles := fun _ => rfl

theorem Alike.trans (h : s.Alike t') (h' : Alike ⟨t', s.base⟩ t'') : s.Alike t'' where
  classes := fun storage => by
    rcases h'.classes storage with heq' | ⟨hmissing', hthere'⟩
    · rcases h.classes storage with heq | ⟨hmissing, hthere⟩
      · exact .inl (heq'.trans heq)
      · exact .inr ⟨hmissing, heq'.trans hthere⟩
    · rcases h.classes storage with heq | ⟨-, hthere⟩
      · exact .inr ⟨heq.symm.trans hmissing', hthere'⟩
      · cases hmissing'.symm.trans hthere
  files := fun storage name => (h'.files storage name).trans (h.files storage name)
  directories := fun storage file =>
    (h'.directories storage file).trans (h.directories storage file)
  keyFiles := fun storage => (h'.keyFiles storage).trans (h.keyFiles storage)

theorem Alike.locate (h : s.Alike t') (name : String)
    (hclass : t'.locate (s.classPath storage) = s.tree.locate (s.classPath storage)) :
    t'.locate (s.filePath storage (name ++ ending)) =
      s.tree.locate (s.filePath storage (name ++ ending)) := by
  have hfile := h.files storage name
  rw [filePath] at hfile ⊢
  by_cases hspeakable : isSpeakable (s.classPath storage ++ [name ++ ending]) = true
  · rw [locate_concat hspeakable, locate_concat hspeakable, hclass, hfile]
  · rw [locate_unspeakable hspeakable, locate_unspeakable hspeakable]

theorem Alike.load (h : s.Alike t') (hbase : Takes s.base) (hrooted : s.tree.Rooted)
    (storage : StorageClass) (name : String) :
    FileStore.load ⟨t', s.base⟩ (s.filePath storage (name ++ ending)) =
        s.load (s.filePath storage (name ++ ending)) ∨
      IsLong name ∧ t'.locate (s.classPath storage) = .ok .directory ∧
        s.load (s.filePath storage (name ++ ending)) = .ok none ∧
        FileStore.load ⟨t', s.base⟩ (s.filePath storage (name ++ ending)) = .error .io := by
  by_cases hspeakable : isSpeakable (s.filePath storage (name ++ ending)) = true
  · rcases h.classes storage with hclass | ⟨hmissing, hthere⟩
    · exact .inl (load_congr (h.locate name hclass))
    · have hold : s.tree.locate (s.filePath storage (name ++ ending)) = .error .notFound := by
        rw [filePath, locate_concat hspeakable, hmissing]
      have hnone := (h.files storage name).trans (find?_missing hbase hrooted hmissing _)
      have hnew := locate_concat (t := t') hspeakable
      rw [hthere] at hnew
      by_cases hlong : IsLong name
      · refine .inr ⟨hlong, hthere, load_missing hold, load_refused ?_⟩
        exact hnew.trans (if_pos hlong)
      · refine .inl (load_congr ?_)
        rw [hold]
        refine (hnew.trans (if_neg hlong)).trans ?_
        rw [filePath] at hnone
        rw [hnone]
  · exact .inl (load_congr (by rw [locate_unspeakable hspeakable, locate_unspeakable hspeakable]))

theorem Alike.get (h : s.Alike t') (hbase : Takes s.base) (hrooted : s.tree.Rooted)
    (r : Reference) (o : StoreOptions) :
    FileStore.get ⟨t', s.base⟩ r o = s.get r o ∨ IsLong r.name ∧
      s.get r o = .error (.keyNotFound r) ∧ FileStore.get ⟨t', s.base⟩ r o = .error .io := by
  by_cases hname : isFileName r.name = true
  · have hpath := keyPath_eq (s := s) hname
    have hpath' : keyPath ⟨t', s.base⟩ r = _ := hpath
    rw [FileStore.get, FileStore.get, hpath, hpath']
    simp only [bind, Except.bind]
    rcases h.load hbase hrooted r.storage r.name with hload | ⟨hlong, -, hold, hnew⟩
    · rw [hload]
      exact .inl rfl
    · rw [hold, hnew]
      exact .inr ⟨hlong, rfl, rfl⟩
  · rw [get_unnamed hname, get_unnamed hname]
    exact .inl rfl

theorem Alike.listFiles (h : s.Alike t') (o : StoreOptions)
    (hclass : t'.locate (s.classPath storage) = s.tree.locate (s.classPath storage))
    (files : List String) : FileStore.listFiles ⟨t', s.base⟩ (s.classPath storage) o files =
      s.listFiles (s.classPath storage) o files := by
  induction files with
  | nil => rfl
  | cons file files ih =>
      rw [FileStore.listFiles, FileStore.listFiles]
      cases hname : nameOf? file with
      | none => exact ih
      | some name =>
          obtain rfl := nameOf?_eq_some_iff.mp hname
          have hload := load_congr (h.locate name hclass)
          rw [filePath] at hload
          simp only [hload, ih]

theorem Alike.list (h : s.Alike t') (hbase : Takes s.base) (hrooted : s.tree.Rooted)
    (storage : StorageClass) (o : StoreOptions) :
    FileStore.list ⟨t', s.base⟩ storage o = s.list storage o := by
  rw [list_eq, list_eq, classPath_with, h.keyFiles]
  rcases h.classes storage with hclass | ⟨hmissing, hthere⟩
  · rw [hclass, h.listFiles o hclass]
  · have hnone : FileStore.keyFiles s.tree (s.classPath storage) = [] := by
      rw [FileStore.keyFiles, names_eq_nil (find?_missing hbase hrooted hmissing), List.filter_nil]
    rw [hnone, hmissing, hthere]
    simp only [FileStore.listFiles, Except.map, Listing.sorted, List.mergeSort_nil]

theorem Alike.of_grows {made : FileTree} (h : Grows (s.classPath storage) s.tree made)
    (hbase : Takes s.base) (hrooted : s.tree.Rooted) : s.Alike made where
  classes := fun other => (locate_grows h hbase hrooted other).imp_right (·.2)
  files := fun other name => find?_grows h other _
  directories := fun other file => by rw [find?_grows h other file]
  keyFiles := keyFiles_grows h

theorem Alike.grows {made made' : FileTree} (h : s.Alike t') (hbase : Takes s.base)
    (hrooted : s.tree.Rooted) (hrooted' : t'.Rooted)
    (hmade : Grows (s.classPath storage) s.tree made)
    (hmade' : Grows (s.classPath storage) t' made')
    (hclass : made.locate (s.classPath storage) = .ok .directory)
    (hclass' : made'.locate (s.classPath storage) = .ok .directory) :
    Alike ⟨made, s.base⟩ made' where
  classes := fun other => by
    by_cases hother : other = storage
    · rw [hother]
      exact .inl (hclass'.trans hclass.symm)
    · have hsame := (locate_grows hmade hbase hrooted other).resolve_right (hother ·.1)
      have hsame' := (locate_grows (s := ⟨t', s.base⟩) hmade' hbase hrooted' other).resolve_right
        (hother ·.1)
      rcases h.classes other with heq | ⟨hmissing, hthere⟩
      · exact .inl (hsame'.trans (heq.trans hsame.symm))
      · exact .inr ⟨hsame.trans hmissing, hsame'.trans hthere⟩
  files := fun other name => (find?_grows (s := ⟨t', s.base⟩) hmade' other _).trans
    ((h.files other name).trans (find?_grows hmade other _).symm)
  directories := fun other file => by
    have hsame := find?_grows hmade other file
    have hsame' := find?_grows (s := ⟨t', s.base⟩) hmade' other file
    exact (Eq.congr_left hsame').trans ((h.directories other file).trans (Eq.congr_left hsame).symm)
  keyFiles := fun other => (keyFiles_grows (s := ⟨t', s.base⟩) hmade' other).trans
    ((h.keyFiles other).trans (keyFiles_grows hmade other).symm)

theorem Alike.made {made made' : FileTree} (h : s.Alike t') (hbase : Takes s.base)
    (hrooted : s.tree.Rooted) (hrooted' : t'.Rooted)
    (hmade : s.tree.makeDirectories (s.classPath storage) = .ok made)
    (hmade' : t'.makeDirectories (s.classPath storage) = .ok made') :
    Alike ⟨made, s.base⟩ made' := by
  obtain ⟨hleads, htakes, hgrows⟩ := of_makeDirectories hmade
  obtain ⟨hleads', -, hgrows'⟩ := of_makeDirectories hmade'
  exact h.grows hbase hrooted hrooted' hgrows hgrows' (locate_leads hleads htakes)
    (locate_leads hleads' htakes)

theorem Alike.replaced (h : s.Alike t') (storage : StorageClass) (name : String) (data : Bytes) :
    Alike ⟨replaced s.tree (s.filePath storage (name ++ ending)) data, s.base⟩
      (replaced t' (s.filePath storage (name ++ ending)) data) where
  classes := fun other => by
    simp only [classPath_with, locate_replaced]
    exact h.classes other
  files := fun other file => by
    simp only [filePath_with, find?_replaced (s.filePath_ne_nil _ _), h.files]
  directories := fun other file => by
    simp only [filePath_with, find?_replaced (s.filePath_ne_nil _ _)]
    split
    · rfl
    · split
      · rfl
      · exact h.directories other file
  keyFiles := fun other => by
    by_cases hother : other = storage
    · simp only [hother, classPath_with, keyFiles_replaced, h.files, h.keyFiles]
    · simp only [classPath_with, keyFiles_replaced_other s hother, h.keyFiles]

theorem Alike.writable (h : s.Alike t') (r : Reference) :
    Writable ⟨t', s.base⟩ r ↔ s.Writable r :=
  and_congr_right' (not_congr (h.directories r.storage _))

theorem Alike.save (h : s.Alike t') (hbase : Takes s.base) (hrooted : s.tree.Rooted)
    (hrooted' : t'.Rooted) (r : Reference) (key : Jwk) :
    (FileStore.save ⟨t', s.base⟩ r key).1 = (s.save r key).1 ∧
      Alike ⟨(s.save r key).2.tree, s.base⟩ (FileStore.save ⟨t', s.base⟩ r key).2.tree := by
  by_cases hname : isFileName r.name = true
  · rcases h.load hbase hrooted r.storage r.name with hsame | ⟨hlong, hthere, hload, hload'⟩
    · cases hload : s.load (s.filePath r.storage (r.name ++ ending)) with
      | error e =>
          rw [save_unloaded hname hload, save_unloaded hname (hsame.trans hload)]
          exact ⟨rfl, h⟩
      | ok old =>
          obtain ⟨made, hmade, -, hsave⟩ := save_loaded hbase hrooted hname hload key
          obtain ⟨made', hmade', -, hsave'⟩ :=
            save_loaded (s := ⟨t', s.base⟩) hbase hrooted' hname (hsame.trans hload) key
          have halike := h.made hbase hrooted hrooted' hmade hmade'
          rw [hsave, hsave']
          by_cases hwritable : s.Writable r
          · rw [if_pos hwritable, if_pos ((h.writable r).mpr hwritable)]
            exact ⟨rfl, halike.replaced _ _ _⟩
          · rw [if_neg hwritable, if_neg fun hw => hwritable ((h.writable r).mp hw)]
            exact ⟨rfl, halike⟩
    · -- With such a name the first save makes the directory, in vain, and the second one does not.
      obtain ⟨made, hmade, -, hsave⟩ := save_loaded hbase hrooted hname hload key
      obtain ⟨-, htakes, -⟩ := of_makeDirectories hmade
      have hnot : ¬ s.Writable r := by
        intro hwritable
        have hsize := (hwritable.1.2 _ (List.mem_append_right _ (.head _))).1
        rw [String.utf8ByteSize_append] at hsize
        rw [IsLong] at hlong
        omega
      have hmade' : t'.makeDirectories (s.classPath r.storage) = .ok t' :=
        makeDirectories_leads (hrooted'.leads (find?_of_locate hthere)) htakes
      rw [hsave, if_neg hnot, save_unloaded (s := ⟨t', s.base⟩) hname hload']
      exact ⟨rfl, h.made hbase hrooted hrooted' hmade hmade'⟩
  · rw [save_unnamed hname, save_unnamed hname]
    exact ⟨rfl, h⟩

theorem Alike.perform (h : s.Alike t') (hbase : Takes s.base) (hrooted : s.tree.Rooted)
    (hrooted' : t'.Rooted) (call : StoreCall) :
    AnsweredAlike call ((KeyStore.file s).perform call).1
      ((KeyStore.file ⟨t', s.base⟩).perform call).1 := by
  cases call with
  | save r key => exact .inl (congrArg StoreAnswer.saved (h.save hbase hrooted hrooted' r key).1)
  | get r o =>
      simp only [KeyStore.perform, KeyStore.get]
      rcases h.get hbase hrooted r o with heq | ⟨hlong, hmissing, hrefused⟩
      · exact .inl (by rw [heq])
      · exact .inr ⟨r, o, rfl, hlong, by rw [hmissing]; rfl, by rw [hrefused]; rfl⟩
  | list storage o => exact .inl (congrArg StoreAnswer.listed (h.list hbase hrooted storage o))

theorem Alike.unnoticed (h : s.Alike t') (hbase : Takes s.base) (hrooted : s.tree.Rooted)
    (hrooted' : t'.Rooted) : s.Unnoticed ⟨t', s.base⟩ := by
  intro calls call
  induction calls generalizing s t' with
  | nil => exact h.perform hbase hrooted hrooted' call
  | cons first calls ih =>
      cases first with
      | save r key =>
          have hnext := ih (h.save hbase hrooted hrooted' r key).2 hbase
            (rooted_save hbase hrooted r key) (rooted_save (s := ⟨t', s.base⟩) hbase hrooted' r key)
          simp only [KeyStore.after, KeyStore.perform, KeyStore.save]
          rw [save_with_base s, save_with_base ⟨t', s.base⟩]
          exact hnext
      | get r o => exact ih h hbase hrooted hrooted'
      | list storage o => exact ih h hbase hrooted hrooted'

theorem Alike.beside {file : String}
    (hplace : s.tree.find? (s.filePath storage (file ++ temporaryEnding)) ≠ some .directory)
    (data : Bytes) :
    s.Alike (s.tree.put (s.filePath storage (file ++ temporaryEnding)) (.file data)) where
  classes := fun other => .inl <| locate_congr fun p hp => find?_put_of_ne _ _ <| by
    rintro rfl
    exact s.filePath_not_prefix storage other _ hp
  files := fun other name => find?_put_of_ne _ _ fun heq =>
    ending_ne_temporary name file (filePath_inj.mp heq).2.symm
  directories := fun other name => by
    rw [find?_put _ _ _ (s.filePath_ne_nil _ _)]
    split
    next heq =>
      rw [← heq]
      simp [hplace]
    · rfl
  keyFiles := fun other => by
    by_cases hother : other = storage
    · rw [hother, filePath, keyFiles_put_beside _ (isKeyFile_temporary file)]
    · have hne : s.classPath other ≠ s.classPath storage := fun heq => hother (classPath_inj.mp heq)
      rw [FileStore.keyFiles, filePath, names_put_other _ hne, FileStore.keyFiles]

theorem Interrupted.alike {r : Reference} {key : Jwk} {cut : FileTree}
    (h : s.Interrupted r key cut) (hbase : Takes s.base) (hrooted : s.tree.Rooted) :
    s.Alike cut ∧ cut.Rooted := by
  cases h with
  | before => exact ⟨.refl s, hrooted⟩
  | making hpath _ hway hmade =>
      obtain ⟨-, rfl⟩ := keyPath_eq_ok hpath
      rw [dropLast_filePath] at hway
      have hgrows := (of_makeDirectories hmade).2.2.mono hway
      exact ⟨.of_grows hgrows hbase hrooted, hgrows.rooted hrooted⟩
  | @writing _ old made _ part hpath _ hmade _ hwrite =>
      obtain ⟨-, rfl⟩ := keyPath_eq_ok hpath
      rw [dropLast_filePath] at hmade
      obtain ⟨hleads, htakes, hgrows⟩ := of_makeDirectories hmade
      have hmade := hgrows.rooted hrooted
      have hclass := hleads _ List.prefix_rfl
      rw [temporary_filePath] at hwrite
      obtain ⟨-, hfree, rfl⟩ := write_eq_ok hwrite
      have hplace := hfree.find?_ne hleads htakes
      have hgrown : s.Alike made := .of_grows hgrows hbase hrooted
      exact ⟨hgrown.trans (.beside (s := ⟨made, s.base⟩) hplace part), hmade.put _ hclass hplace⟩

theorem save_renamed {r : Reference} {key : Jwk} {path : Path} {old : Option Container}
    {made beside tree : FileTree} (hpath : s.keyPath r = .ok path) (hload : s.load path = .ok old)
    (hmade : s.tree.makeDirectories path.dropLast = .ok made)
    (hwrite : made.write (temporary path) (render (added old key)) = .ok beside)
    (hrename : beside.rename (temporary path) path = .ok tree) :
    s.save r key = (.ok (), ⟨tree, s.base⟩) := by
  obtain ⟨hname, rfl⟩ := keyPath_eq_ok hpath
  have hsteps : steps (saveSteps (s.filePath r.storage (r.name ++ ending)) (render (added old key)))
      s.tree = (true, tree) := by
    simp only [saveSteps, steps, hmade, hwrite, hrename]
  exact save_of_steps hname hload hsteps

theorem save_failed {r : Reference} {key : Jwk} (hbase : Takes s.base) (hrooted : s.tree.Rooted)
    {e : Error} {s' : FileStore} (h : s.save r key = (.error e, s')) :
    ∃ cut, s.Interrupted r key cut ∧ s' = ⟨cut, s.base⟩ := by
  by_cases hname : isFileName r.name = true
  · cases hload : s.load (s.filePath r.storage (r.name ++ ending)) with
    | error e' =>
        rw [save_unloaded hname hload] at h
        cases h
        exact ⟨_, .before, rfl⟩
    | ok old =>
        obtain ⟨made, hmade, -, hsave⟩ := save_loaded hbase hrooted hname hload key
        rw [hsave] at h
        split at h
        · cases h
        · cases h
          refine ⟨made, .making (keyPath_eq hname) hload List.prefix_rfl ?_, rfl⟩
          rwa [dropLast_filePath]
  · rw [save_unnamed hname] at h
    cases h
    exact ⟨_, .before, rfl⟩

theorem save_completed {r : Reference} {key : Jwk} (hbase : Takes s.base)
    (hrooted : s.tree.Rooted) {s' : FileStore} (h : s.save r key = (.ok (), s')) :
    s.Completed r key s' := by
  by_cases hname : isFileName r.name = true
  · cases hload : s.load (s.filePath r.storage (r.name ++ ending)) with
    | error e =>
        rw [save_unloaded hname hload] at h
        cases h
    | ok old =>
        obtain ⟨made, hmade, -, hsave⟩ := save_loaded hbase hrooted hname hload key
        obtain ⟨hleads, -, hgrows⟩ := of_makeDirectories hmade
        rw [hsave] at h
        split at h
        next hwritable =>
          cases h
          refine ⟨⟨old, get_of_load hname hload, ?_⟩, fun r' o hne => ?_⟩
          · exact get_of_load hname (load_replaced s hleads hwritable.1.last (added old key))
          · rw [get_replaced_other s hne]
            exact (Alike.of_grows hgrows hbase hrooted).get hbase hrooted r' o
        · cases h
  · rw [save_unnamed hname] at h
    cases h

theorem save_atomic {earlier : FileTree} {made : FileStore}
    (hcreate : create earlier s.base = .ok made) (hrooted : s.tree.Rooted) (r : Reference)
    (key : Jwk) : s.Atomic r key := by
  have hbase : Takes s.base := by
    rw [create] at hcreate
    split at hcreate
    next hmade => exact (of_makeDirectories hmade).2.1
    · cases hcreate
  refine
    { interrupted := fun cut hcut => ?_
      renamed := fun path old made beside tree => save_renamed
      failed := fun e s' => save_failed hbase hrooted
      completed := fun s' => save_completed hbase hrooted }
  obtain ⟨halike, hrooted'⟩ := hcut.alike hbase hrooted
  exact halike.unnoticed hbase hrooted hrooted'

def emptyStore : FileStore :=
  ⟨⟨[(["keys"], .directory)]⟩, ["keys"]⟩

theorem save_atomic_partial : ∃ cut, emptyStore.Interrupted ⟨"a", .key, none⟩ (.oct [3]) cut ∧
    cut.find? ["keys", "key", "a.json.tmp"] = some (.file [123]) ∧
    emptyStore.Unnoticed ⟨cut, ["keys"]⟩ := by
  have hcreate : create {} emptyStore.base = .ok emptyStore := rfl
  have hrooted : emptyStore.tree.Rooted := by decide
  have hpart : [123] <+: render (added none (.oct [3])) := by decide +kernel
  have hcut : emptyStore.Interrupted ⟨"a", .key, none⟩ (.oct [3]) _ :=
    .writing rfl rfl rfl hpart rfl
  refine ⟨_, hcut, rfl, ?_⟩
  exact (save_atomic hcreate hrooted ⟨"a", .key, none⟩ (.oct [3])).interrupted _ hcut

theorem get_long {r : Reference} (hname : isFileName r.name = true)
    (hspeakable : isSpeakable (s.filePath r.storage (r.name ++ ending)) = true)
    (hlong : IsLong r.name) (o : StoreOptions) :
    s.get r o = match s.tree.locate (s.classPath r.storage) with
      | .error .notFound => .error (.keyNotFound r)
      | _ => .error .io := by
  have hsize : maxNameSize < (r.name ++ ending).utf8ByteSize := hlong
  have hlocate : s.tree.locate (s.filePath r.storage (r.name ++ ending)) = _ :=
    locate_concat hspeakable
  rw [if_pos hsize] at hlocate
  rw [FileStore.get, keyPath_eq hname]
  simp only [bind, Except.bind, FileStore.load, FileTree.read, hlocate]
  cases s.tree.locate (s.classPath r.storage) with
  | error fault => cases fault <;> rfl
  | ok node => cases node <;> rfl

theorem long_noticed {r : Reference} {made : FileTree} (hname : isFileName r.name = true)
    (hspeakable : isSpeakable (s.filePath r.storage (r.name ++ ending)) = true)
    (hlong : IsLong r.name)
    (hmissing : s.tree.locate (s.classPath r.storage) = .error .notFound)
    (hmade : s.tree.makeDirectories (s.classPath r.storage) = .ok made) (key : Jwk)
    (o : StoreOptions) : s.Interrupted r key made ∧ s.get r o = .error (.keyNotFound r) ∧
      FileStore.get ⟨made, s.base⟩ r o = .error .io := by
  obtain ⟨hleads, htakes, -⟩ := of_makeDirectories hmade
  have hload : s.tree.locate (s.filePath r.storage (r.name ++ ending)) = _ :=
    locate_concat hspeakable
  rw [hmissing] at hload
  refine ⟨.making (keyPath_eq hname) (load_missing hload) List.prefix_rfl ?_, ?_, ?_⟩
  · rwa [dropLast_filePath]
  · rw [get_long hname hspeakable hlong, hmissing]
  · rw [get_long (s := ⟨made, s.base⟩) hname hspeakable hlong, classPath_with,
      locate_leads hleads htakes]

def longName : String :=
  String.ofList (List.replicate 63 '𝕒')

theorem not_save_unnoticed : ¬ ∀ (s : FileStore) (earlier : FileTree) (made : FileStore),
    create earlier s.base = .ok made → s.tree.Rooted → ∀ r key cut, s.Interrupted r key cut →
      ∀ r' o, FileStore.get ⟨cut, s.base⟩ r' o = s.get r' o := by
  intro h
  have hcreate : create {} emptyStore.base = .ok emptyStore := rfl
  have hrooted : emptyStore.tree.Rooted := by decide
  have hletters : longName.toList = List.replicate 63 '𝕒' := String.toList_ofList
  have hname : isFileName longName = true := by
    have hplain : longName.isEmpty = false ∧ longName ≠ "." ∧ longName ≠ ".." := by decide +kernel
    simp only [isFileName, hletters, hplain]
    decide +kernel
  have hlong : IsLong longName := by
    rw [IsLong]
    decide +kernel
  have hspeakable : isSpeakable (emptyStore.filePath .key (longName ++ ending)) = true := by
    refine isSpeakable_iff.mpr ⟨by decide +kernel, ?_⟩
    simp only [filePath, classPath, emptyStore, List.forall_mem_append, List.forall_mem_singleton,
      String.toList_append, hletters]
    decide
  have hmade : emptyStore.tree.makeDirectories (emptyStore.classPath .key) =
      .ok ⟨[(["keys"], .directory), (["keys", "key"], .directory)]⟩ := rfl
  obtain ⟨hcut, hbefore, hafter⟩ := long_noticed (r := ⟨longName, .key, none⟩) hname hspeakable
    hlong rfl hmade (.oct [3]) {}
  have hget := h emptyStore {} emptyStore hcreate hrooted _ _ _ hcut ⟨longName, .key, none⟩ {}
  rw [hbefore, hafter] at hget
  cases hget

end FileStore

end JoseTokens
