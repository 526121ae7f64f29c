import JoseTokens.Proofs.Store.Directories
import JoseTokens.Proofs.Store.File

namespace JoseTokens

namespace FileStore

open FileTree

variable {s : FileStore} {t' : FileTree} {storage : StorageClass}

def isKeyFile (file : String) : Bool :=
  (nameOf? file).isSome

def keyFiles (t : FileTree) (dir : Path) : List String :=
  (t.names dir).filter isKeyFile

theorem isKeyFile_ending (name : String) : isKeyFile (name ++ ending) = true := by
  rw [isKeyFile, nameOf?_eq_some_iff.mpr rfl]
  rfl

theorem isKeyFile_temporary (file : String) : isKeyFile (file ++ temporaryEnding) = false := by
  rw [isKeyFile, nameOf?_temporary]
  rfl

theorem ending_injective {name other : String} (h : name ++ ending = other ++ ending) :
    name = other := by
  have hname := nameOf?_eq_some_iff.mpr h
  rw [nameOf?_eq_some_iff.mpr rfl] at hname
  exact Option.some.inj hname

theorem ending_ne_temporary (name file : String) : name ++ ending ≠ file ++ temporaryEnding := by
  intro h
  have hfile := isKeyFile_ending name
  rw [h, isKeyFile_temporary] at hfile
  cases hfile

theorem listFiles_keyFiles (s : FileStore) (dir : Path) (o : StoreOptions) (files : List String) :
    s.listFiles dir o (files.filter isKeyFile) = s.listFiles dir o files := by
  induction files with
  | nil => rfl
  | cons file files ih =>
      cases hname : nameOf? file with
      | none =>
          rw [List.filter_cons_of_neg (by simp [isKeyFile, hname]), ih, listFiles, hname]
      | some name =>
          rw [List.filter_cons_of_pos (by simp [isKeyFile, hname]), listFiles, listFiles, hname]
          simp only [ih]

section

variable {t : FileTree} {dir : Path} {file : String}

theorem keyFiles_put_beside (node : Node) (hfile : isKeyFile file = false) :
    keyFiles (t.put (dir ++ [file]) node) dir = keyFiles t dir := by
  rw [keyFiles, names_put]
  split
  · rfl
  · rw [List.filter_append, List.filter_cons_of_neg (by simp [hfile]), List.filter_nil,
      List.append_nil]
    rfl

theorem keyFiles_put (node : Node) (hfile : isKeyFile file = true) :
    keyFiles (t.put (dir ++ [file]) node) dir =
      if (t.find? (dir ++ [file])).isSome then keyFiles t dir else keyFiles t dir ++ [file] := by
  rw [keyFiles, names_put]
  split
  · rfl
  · rw [List.filter_append, List.filter_cons_of_pos hfile]
    rfl

theorem keyFiles_without_beside (hfile : isKeyFile file = false) :
    keyFiles (t.without (dir ++ [file])) dir = keyFiles t dir := by
  rw [keyFiles, names_without, List.filter_filter, keyFiles]
  refine List.filter_congr fun name _ => ?_
  by_cases hname : name = file
  · simp [hname, hfile]
  · simp [hname]

end

@[simp]
theorem classPath_with (s : FileStore) (t' : FileTree) (storage : StorageClass) :
    classPath ⟨t', s.base⟩ storage = s.classPath storage :=
  rfl

@[simp]
theorem filePath_with (s : FileStore) (t' : FileTree) (storage : StorageClass) (file : String) :
    filePath ⟨t', s.base⟩ storage file = s.filePath storage file :=
  rfl

theorem keyPath_eq_ok {r : Reference} {path : Path} (h : s.keyPath r = .ok path) :
    isFileName r.name = true ∧ path = s.filePath r.storage (r.name ++ ending) := by
  rw [keyPath] at h
  split at h
  next hname => exact ⟨hname, (Except.ok.inj h).symm⟩
  · cases h

theorem keyPath_unnamed {r : Reference} (hname : ¬ isFileName r.name = true) :
    s.keyPath r = .error (.invalidArgument (.fileName r.name)) :=
  if_neg hname

theorem dropLast_filePath (s : FileStore) (storage : StorageClass) (file : String) :
    (s.filePath storage file).dropLast = s.classPath storage :=
  List.dropLast_concat

theorem filePath_not_prefix (s : FileStore) (storage other : StorageClass) (file : String) :
    ¬ s.filePath storage file <+: s.classPath other := by
  intro h
  have hlength := h.length_le
  simp [filePath, classPath] at hlength

theorem classPath_not_prefix {other : StorageClass} (h : other ≠ storage) :
    ¬ s.classPath other <+: s.classPath storage := by
  intro hbegins
  exact h (classPath_inj.mp (hbegins.eq_of_length (by simp [classPath])))

theorem takes_classPath (hbase : Takes s.base)
    (hclass : isSpeakable (s.classPath storage) = true) : Takes (s.classPath storage) := by
  obtain ⟨hsize, hnull⟩ := isSpeakable_iff.mp hclass
  refine ⟨hsize, fun name hname => ⟨?_, hnull name hname⟩⟩
  rcases List.mem_append.mp hname with hname | hname
  · exact (hbase.2 name hname).1
  · obtain rfl := List.mem_singleton.mp hname
    cases storage <;> decide

theorem locate_unspeakable {t : FileTree} {path : Path} (h : ¬ isSpeakable path = true) :
    t.locate path = .error .refused :=
  if_neg h

theorem find?_missing (hbase : Takes s.base) (hrooted : s.tree.Rooted)
    (hmissing : s.tree.locate (s.classPath storage) = .error .notFound) (file : String) :
    s.tree.find? (s.filePath storage file) = none := by
  refine hrooted.child_none (fun hdirectory => ?_) file
  have hspeakable : isSpeakable (s.classPath storage) = true := by
    by_contra hnot
    cases hmissing.symm.trans (locate_unspeakable hnot)
  have hleads := locate_leads (hrooted.leads hdirectory) (takes_classPath hbase hspeakable)
  cases hmissing.symm.trans hleads

theorem load_congr {path : Path} (h : t'.locate path = s.tree.locate path) :
    load ⟨t', s.base⟩ path = s.load path := by
  rw [load, load, FileTree.read, FileTree.read, h]

theorem load_missing {path : Path} (h : s.tree.locate path = .error .notFound) :
    s.load path = .ok none := by
  rw [load, FileTree.read, h]

theorem load_refused {path : Path} (h : s.tree.locate path = .error .refused) :
    s.load path = .error .io := by
  rw [load, FileTree.read, h]

theorem free_of_load {path : Path} (h : s.load path = .ok old) : s.tree.Free path := by
  rw [FileStore.load, FileTree.read] at h
  rw [Free]
  cases hlocate : s.tree.locate path with
  | error fault =>
      cases fault with
      | notFound => exact .inl rfl
      | refused =>
          rw [hlocate] at h
          cases h
  | ok node =>
      cases node with
      | file data => exact .inr ⟨data, rfl⟩
      | directory =>
          rw [hlocate] at h
          cases h

def found (r : Reference) (o : StoreOptions) : Option Container → Except Error Container
  | some c => o.apply c
  | none => .error (.keyNotFound r)

theorem get_of_load {r : Reference} {old : Option Container} (hname : isFileName r.name = true)
    (hload : s.load (s.filePath r.storage (r.name ++ ending)) = .ok old) (o : StoreOptions) :
    s.get r o = found r o old := by
  rw [FileStore.get, keyPath_eq hname]
  simp only [bind, Except.bind, hload]
  cases old <;> rfl

theorem get_unnamed {r : Reference} (hname : ¬ isFileName r.name = true) (o : StoreOptions) :
    s.get r o = .error (.invalidArgument (.fileName r.name)) := by
  rw [FileStore.get, keyPath_unnamed hname]
  rfl

theorem list_eq (s : FileStore) (storage : StorageClass) (o : StoreOptions) :
    s.list storage o = match s.tree.locate (s.classPath storage) with
      | .ok .directory => (s.listFiles (s.classPath storage) o
          (FileStore.keyFiles s.tree (s.classPath storage))).map Listing.sorted
      | .ok (.file _) => .error .io
      | .error .notFound => .ok []
      | .error .refused => .error .io := by
  rw [FileStore.keyFiles, listFiles_keyFiles, FileStore.list, entries]
  cases s.tree.locate (s.classPath storage) with
  | error fault => cases fault <;> rfl
  | ok node => cases node <;> rfl

theorem locate_grows {made : FileTree} (h : Grows (s.classPath storage) s.tree made)
    (hbase : Takes s.base) (hrooted : s.tree.Rooted) (other : StorageClass) :
    made.locate (s.classPath other) = s.tree.locate (s.classPath other) ∨ other = storage ∧
      s.tree.locate (s.classPath other) = .error .notFound ∧
        made.locate (s.classPath other) = .ok .directory := by
  by_cases hspeakable : isSpeakable (s.classPath other) = true
  · refine (h.locate hrooted (takes_classPath hbase hspeakable)).imp_right ?_
    rintro ⟨hbegins, hfound⟩
    refine ⟨?_, hfound⟩
    by_contra hne
    exact classPath_not_prefix hne hbegins
  · exact .inl (by rw [locate_unspeakable hspeakable, locate_unspeakable hspeakable])

theorem find?_grows {made : FileTree} (h : Grows (s.classPath storage) s.tree made)
    (other : StorageClass) (file : String) :
    made.find? (s.filePath other file) = s.tree.find? (s.filePath other file) :=
  h.find?_eq (s.filePath_not_prefix other storage file)

theorem keyFiles_grows {made : FileTree} (h : Grows (s.classPath storage) s.tree made)
    (other : StorageClass) :
    keyFiles made (s.classPath other) = keyFiles s.tree (s.classPath other) := by
  rw [keyFiles, h.names_eq fun name => s.filePath_not_prefix other storage name]
  rfl

theorem open_classPath (hbase : Takes s.base) (hrooted : s.tree.Rooted) {file : String}
    (hfree : s.tree.Free (s.filePath storage file)) :
    Takes (s.classPath storage) ∧ s.tree.Open (s.classPath storage) := by
  have hspeakable : isSpeakable (s.filePath storage file) = true := by
    by_contra hnot
    rw [Free, locate_unspeakable hnot] at hfree
    obtain hnone | ⟨data, hdata⟩ := hfree
    · cases hnone
    · cases hdata
  have htakes : Takes (s.classPath storage) :=
    takes_classPath hbase (isSpeakable_left hspeakable)
  rw [Free, filePath, locate_concat hspeakable] at hfree
  refine ⟨htakes, hrooted.isOpen htakes (fun hrefused => ?_) (fun data hdata => ?_)⟩
  · simp only [hrefused] at hfree
    obtain hnone | ⟨data, hdata⟩ := hfree
    · cases hnone
    · cases hdata
  · simp only [hdata] at hfree
    obtain hnone | ⟨data, hdata⟩ := hfree
    · cases hnone
    · cases hdata

section

variable {t : FileTree}

theorem find?_replaced_of_ne {path q : Path} (hpath : path ≠ q) (hbeside : temporary path ≠ q)
    (data : Bytes) : (replaced t path data).find? q = t.find? q := by
  rw [replaced, find?_without_of_ne _ hbeside, find?_put_of_ne _ _ hpath,
    find?_put_of_ne _ _ hbeside]

theorem rooted_replaced {dir : Path} {file : String} (h : t.Rooted)
    (hdir : t.find? dir = some .directory) (hplace : t.find? (dir ++ [file]) ≠ some .directory)
    (hbeside : t.find? (dir ++ [file ++ temporaryEnding]) ≠ some .directory) (data : Bytes) :
    (replaced t (dir ++ [file]) data).Rooted := by
  rw [FileStore.replaced, temporary_child]
  have hput := h.put (.file data) hdir hbeside
  have hdir' : (t.put (dir ++ [file ++ temporaryEnding]) (.file data)).find? dir =
      some .directory := by
    rwa [find?_put_of_ne _ _ (by simp)]
  refine Rooted.without (hput.put _ hdir' ?_) ?_
  · rwa [find?_put_of_ne _ _ (child_ne_temporary dir file).symm]
  · rw [find?_put_of_ne _ _ (child_ne_temporary dir file), find?_put_self _ _ (by simp)]
    simp

theorem locate_replaced (s : FileStore) (storage other : StorageClass) (file : String)
    (data : Bytes) : (replaced t (s.filePath storage file) data).locate (s.classPath other) =
      t.locate (s.classPath other) := by
  refine locate_congr fun p hp => find?_replaced_of_ne ?_ ?_ data
  · rintro rfl
    exact s.filePath_not_prefix storage other file hp
  · rw [temporary_filePath]
    rintro rfl
    exact s.filePath_not_prefix storage other _ hp

theorem keyFiles_replaced (s : FileStore) (storage : StorageClass) (name : String) (data : Bytes) :
    keyFiles (replaced t (s.filePath storage (name ++ ending)) data) (s.classPath storage) =
      if (t.find? (s.filePath storage (name ++ ending))).isSome
        then keyFiles t (s.classPath storage)
        else keyFiles t (s.classPath storage) ++ [name ++ ending] := by
  rw [replaced, temporary_filePath, filePath, filePath,
    keyFiles_without_beside (isKeyFile_temporary _), keyFiles_put _ (isKeyFile_ending name),
    find?_put_of_ne _ _ (child_ne_temporary _ _).symm,
    keyFiles_put_beside _ (isKeyFile_temporary _)]

theorem keyFiles_replaced_other (s : FileStore) {storage other : StorageClass}
    (h : other ≠ storage) (file : String) (data : Bytes) :
    keyFiles (replaced t (s.filePath storage file) data) (s.classPath other) =
      keyFiles t (s.classPath other) := by
  have hclass : s.classPath other ≠ s.classPath storage := fun heq => h (classPath_inj.mp heq)
  rw [keyFiles, replaced, temporary_filePath, filePath, filePath, names_without_other hclass,
    names_put_other _ hclass, names_put_other _ hclass, keyFiles]

theorem load_replaced_other (s : FileStore) {storage other : StorageClass} {name file : String}
    (hne : ¬ (other = storage ∧ file = name)) (data : Bytes) :
    load ⟨replaced t (s.filePath storage (name ++ ending)) data, s.base⟩
        (s.filePath other (file ++ ending)) =
      load ⟨t, s.base⟩ (s.filePath other (file ++ ending)) := by
  refine load_congr (s := ⟨t, s.base⟩) (locate_congr fun p hp => find?_replaced_of_ne ?_ ?_ data)
  · rintro rfl
    rcases List.prefix_concat_iff.mp hp with heq | hp
    · obtain ⟨hclass, hfile⟩ := filePath_inj.mp heq
      exact hne ⟨hclass.symm, (ending_injective hfile).symm⟩
    · exact s.filePath_not_prefix storage other _ hp
  · rw [temporary_filePath]
    rintro rfl
    rcases List.prefix_concat_iff.mp hp with heq | hp
    · exact ending_ne_temporary file _ (filePath_inj.mp heq).2.symm
    · exact s.filePath_not_prefix storage other _ hp

theorem get_replaced_other (s : FileStore) {r r' : Reference}
    (hne : ¬ (r'.storage = r.storage ∧ r'.name = r.name)) (data : Bytes) (o : StoreOptions) :
    FileStore.get ⟨replaced t (s.filePath r.storage (r.name ++ ending)) data, s.base⟩ r' o =
      FileStore.get ⟨t, s.base⟩ r' o := by
  by_cases hname : isFileName r'.name = true
  · rw [FileStore.get, FileStore.get, keyPath_eq hname, keyPath_eq hname]
    simp only [bind, Except.bind, filePath_with, load_replaced_other s hne]
  · rw [get_unnamed hname, get_unnamed hname]

theorem load_replaced (s : FileStore) {name : String} (hleads : t.Leads (s.classPath storage))
    (htakes : Takes (s.filePath storage (name ++ ending))) (c : Container) :
    load ⟨replaced t (s.filePath storage (name ++ ending)) (render c), s.base⟩
      (s.filePath storage (name ++ ending)) = .ok (some c) := by
  have hleads' : (replaced t (s.filePath storage (name ++ ending)) (render c)).Leads
      (s.classPath storage) := by
    intro p hp
    rw [find?_replaced_of_ne, hleads p hp]
    · rintro rfl
      exact s.filePath_not_prefix storage storage _ hp
    · rw [temporary_filePath]
      rintro rfl
      exact s.filePath_not_prefix storage storage _ hp
  have hfile : (replaced t (s.filePath storage (name ++ ending)) (render c)).find?
      (s.classPath storage ++ [name ++ ending]) = some (.file (render c)) := by
    rw [← filePath, find?_replaced (s.filePath_ne_nil _ _),
      if_neg (s.filePath_ne_temporary _ _).symm, if_pos rfl]
  have hlocate := locate_child hleads' htakes
  rw [hfile, ← filePath] at hlocate
  rw [FileStore.load, FileTree.read, hlocate]
  simp only [parse_render, Except.map]

end

def added (old : Option Container) (key : Jwk) : Container :=
  match old with
  | some c => c.push key
  | none => ⟨key, []⟩

def Writable (s : FileStore) (r : Reference) : Prop :=
  Takes (s.filePath r.storage (r.name ++ ending ++ temporaryEnding)) ∧
    s.tree.find? (s.filePath r.storage (r.name ++ ending ++ temporaryEnding)) ≠ some .directory

instance (s : FileStore) (r : Reference) : Decidable (s.Writable r) :=
  inferInstanceAs (Decidable (_ ∧ _))

section

variable {r : Reference} {old : Option Container}

theorem save_unnamed (hname : ¬ isFileName r.name = true) (key : Jwk) :
    s.save r key = (.error (.invalidArgument (.fileName r.name)), s) := by
  rw [FileStore.save, keyPath_unnamed hname]
  rfl

theorem save_unloaded {e : Error} (hname : isFileName r.name = true)
    (hload : s.load (s.filePath r.storage (r.name ++ ending)) = .error e) (key : Jwk) :
    s.save r key = (.error e, s) := by
  rw [FileStore.save, keyPath_eq hname]
  simp only [bind, Except.bind, hload]

theorem save_of_steps (hname : isFileName r.name = true)
    (hload : s.load (s.filePath r.storage (r.name ++ ending)) = .ok old) {key : Jwk} {done : Bool}
    {tree : FileTree} (hsteps : steps (saveSteps (s.filePath r.storage (r.name ++ ending))
      (render (added old key))) s.tree = (done, tree)) :
    s.save r key = (if done then .ok () else .error .io, ⟨tree, s.base⟩) := by
  rw [FileStore.save, keyPath_eq hname]
  simp only [bind, Except.bind, hload, pure, Except.pure]
  cases old with
  | none =>
      have hnew : steps (saveSteps _ (render ⟨key, []⟩)) s.tree = (done, tree) := hsteps
      rw [hnew]
  | some c =>
      have hpushed : steps (saveSteps _ (render (c.push key))) s.tree = (done, tree) := hsteps
      rw [hpushed]

theorem steps_saveSteps {t made : FileTree} {dir : Path} {file : String}
    (hmade : t.makeDirectories dir = .ok made)
    (hplace : made.find? (dir ++ [file]) ≠ some .directory) (data : Bytes) :
    steps (saveSteps (dir ++ [file]) data) t =
      if Takes (dir ++ [file ++ temporaryEnding]) ∧
          made.find? (dir ++ [file ++ temporaryEnding]) ≠ some .directory
        then (true, replaced made (dir ++ [file]) data) else (false, made) := by
  obtain ⟨hleads, hdir, -⟩ := of_makeDirectories hmade
  rw [saveSteps, steps, List.dropLast_concat, hmade]
  simp only
  split
  next hwritable =>
    refine steps_replace hleads hwritable.1 hwritable.2 (fun node hnode => ?_) data
    cases node with
    | file old => exact ⟨old, rfl⟩
    | directory => exact absurd hnode hplace
  next hnot =>
    rw [steps, temporary_child, write_refused hleads hdir hnot]

theorem save_loaded (hbase : Takes s.base) (hrooted : s.tree.Rooted)
    (hname : isFileName r.name = true)
    (hload : s.load (s.filePath r.storage (r.name ++ ending)) = .ok old) (key : Jwk) :
    ∃ made, s.tree.makeDirectories (s.classPath r.storage) = .ok made ∧
      made.find? (s.filePath r.storage (r.name ++ ending)) ≠ some .directory ∧
      s.save r key = if s.Writable r
        then (.ok (), ⟨replaced made (s.filePath r.storage (r.name ++ ending))
          (render (added old key)), s.base⟩)
        else (.error .io, ⟨made, s.base⟩) := by
  have hfree := free_of_load hload
  obtain ⟨htakes, hopen⟩ := open_classPath hbase hrooted hfree
  obtain ⟨made, hmade⟩ := makeDirectories_open htakes hopen
  obtain ⟨-, -, hgrows⟩ := of_makeDirectories hmade
  have hplace : made.find? (s.filePath r.storage (r.name ++ ending)) ≠ some .directory := by
    rw [find?_grows hgrows]
    intro hdirectory
    have hclass := rooted_iff.mp hrooted _ _ (Option.isSome_of_eq_some hdirectory)
    exact hfree.find?_ne (hrooted.leads hclass) htakes hdirectory
  have hsteps := steps_saveSteps hmade hplace (render (added old key))
  have hbeside := find?_grows hgrows r.storage (r.name ++ ending ++ temporaryEnding)
  refine ⟨made, hmade, hplace, ?_⟩
  by_cases hwritable : s.Writable r
  · rw [if_pos ⟨hwritable.1, hbeside ▸ hwritable.2⟩] at hsteps
    rw [if_pos hwritable]
    exact save_of_steps hname hload hsteps
  · rw [if_neg fun hnot => hwritable ⟨hnot.1, hbeside ▸ hnot.2⟩] at hsteps
    rw [if_neg hwritable]
    exact save_of_steps hname hload hsteps

end

theorem rooted_save (hbase : Takes s.base) (hrooted : s.tree.Rooted) (r : Reference) (key : Jwk) :
    (s.save r key).2.tree.Rooted := by
  by_cases hname : isFileName r.name = true
  · cases hload : s.load (s.filePath r.storage (r.name ++ ending)) with
    | error e =>
        rw [save_unloaded hname hload]
        exact hrooted
    | ok old =>
        obtain ⟨made, hmade, hplace, hsave⟩ := save_loaded hbase hrooted hname hload key
        obtain ⟨hleads, -, hgrows⟩ := of_makeDirectories hmade
        have hmade := hgrows.rooted hrooted
        rw [hsave]
        split
        next hwritable =>
          refine rooted_replaced hmade (hleads _ List.prefix_rfl) hplace (fun hdirectory => ?_) _
          exact hwritable.2 ((find?_grows hgrows _ _).symm.trans hdirectory)
        · exact hmade
  · rw [save_unnamed hname]
    exact hrooted

theorem save_with_base (s : FileStore) (r : Reference) (key : Jwk) :
    (s.save r key).2 = ⟨(s.save r key).2.tree, s.base⟩ := by
  have hbase : (s.save r key).2.base = s.base := by
    rw [FileStore.save]
    simp only
    split <;> rfl
  exact congrArg (FileStore.mk (s.save r key).2.tree) hbase

end FileStore

end JoseTokens
