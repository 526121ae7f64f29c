import JoseTokens.Proofs.Store.FileTree
import JoseTokens.Proofs.Store.KeyFile
import JoseTokens.Proofs.Store.KeyMap

namespace JoseTokens

theorem StorageClass.text_injective {a b : StorageClass} (h : a.text = b.text) : a = b := by
  revert h
  cases a <;> cases b <;> decide

namespace FileStore

open FileTree

def temporaryEnding : String := ".tmp"

theorem nameOf?_eq_some_iff {file name : String} :
    nameOf? file = some name ↔ file = name ++ ending := by
  have htake (start : List Char) :
      (start ++ ending.toList).take ((start ++ ending.toList).length - ending.length) = start := by
    rw [List.length_append, String.length_toList, Nat.add_sub_cancel, List.take_left]
  rw [nameOf?]
  constructor
  · intro h
    split at h
    next hsuffix =>
      obtain ⟨start, hstart⟩ := List.isSuffixOf_iff_suffix.mp hsuffix
      rw [← hstart, htake] at h
      cases h
      apply String.toList_injective
      rw [← hstart, String.toList_append, String.toList_ofList]
    · cases h
  · rintro rfl
    have hsuffix : ending.toList.isSuffixOf (name ++ ending).toList = true := by
      rw [List.isSuffixOf_iff_suffix, String.toList_append]
      exact List.suffix_append _ _
    rw [if_pos hsuffix, String.toList_append, htake, String.ofList_toList]

theorem nameOf?_temporary (file : String) : nameOf? (file ++ temporaryEnding) = none := by
  cases h : nameOf? (file ++ temporaryEnding) with
  | none => rfl
  | some name =>
      have hlast := congrArg (fun text => text.toList.getLast?) (nameOf?_eq_some_iff.mp h)
      simp [temporaryEnding, ending] at hlast

theorem temporary_child (dir : Path) (file : String) :
    temporary (dir ++ [file]) = dir ++ [file ++ temporaryEnding] := by
  simp [temporary, temporaryEnding]

theorem child_ne_temporary (dir : Path) (file : String) :
    dir ++ [file] ≠ dir ++ [file ++ temporaryEnding] := by
  intro h
  have hfile : file = file ++ temporaryEnding := by simpa using h
  have hlength := congrArg String.length hfile
  rw [String.length_append] at hlength
  exact absurd hlength (by simp [temporaryEnding])

def replaced (t : FileTree) (path : Path) (data : Bytes) : FileTree :=
  ((t.put (temporary path) (.file data)).put path (.file data)).without (temporary path)

section

variable {t : FileTree} {dir : Path} {file : String}

theorem find?_replaced {path q : Path} (hq : q ≠ []) (data : Bytes) :
    (replaced t path data).find? q = if temporary path = q then none
      else if path = q then some (.file data) else t.find? q := by
  rw [replaced, find?_without _ _ hq, find?_put _ _ _ hq, find?_put _ _ _ hq]
  split
  · rfl
  · rfl

theorem find?_replaced_new {path q : Path} (hq : q ≠ []) (hpath : path ≠ temporary path)
    (hbeside : t.find? (temporary path) = none) (data : Bytes) :
    (replaced t path data).find? q = if path = q then some (.file data) else t.find? q := by
  rw [find?_replaced hq]
  by_cases htemporary : temporary path = q
  · rw [if_pos htemporary, if_neg (htemporary ▸ hpath), ← htemporary, hbeside]
  · rw [if_neg htemporary]

theorem steps_replace (hleads : t.Leads dir) (htakes : Takes (dir ++ [file ++ temporaryEnding]))
    (hbeside : t.find? (dir ++ [file ++ temporaryEnding]) ≠ some .directory)
    (hplace : ∀ node ∈ t.find? (dir ++ [file]), ∃ old, node = .file old) (data : Bytes) :
    steps [fun tree => tree.write (temporary (dir ++ [file])) data,
      fun tree => tree.rename (temporary (dir ++ [file])) (dir ++ [file])] t =
      (true, replaced t (dir ++ [file]) data) := by
  have hfree : t.Free (dir ++ [file ++ temporaryEnding]) := by
    rw [Free, locate_child hleads htakes]
    cases hold : t.find? (dir ++ [file ++ temporaryEnding]) with
    | none => exact .inl rfl
    | some node =>
        cases node with
        | file old => exact .inr ⟨old, rfl⟩
        | directory => exact absurd hold hbeside
  have hdirectory : t.locate (dir ++ [file ++ temporaryEnding]).dropLast = .ok .directory := by
    rw [List.dropLast_concat]
    exact locate_leads hleads htakes.left
  have hwrite := write_eq hdirectory hfree data
  have hbehind := hleads.put (.file data) (not_prefix_append dir (file ++ temporaryEnding) [])
  have hsource : (t.put (dir ++ [file ++ temporaryEnding]) (.file data)).locate
      (dir ++ [file ++ temporaryEnding]) = .ok (.file data) := by
    rw [locate_child hbehind htakes, find?_put _ _ _ (by simp), if_pos rfl]
  have htarget : (t.put (dir ++ [file ++ temporaryEnding]) (.file data)).Free (dir ++ [file]) := by
    rw [Free, locate_child hbehind htakes.last, find?_put _ _ _ (by simp),
      if_neg (child_ne_temporary dir file).symm]
    cases hold : t.find? (dir ++ [file]) with
    | none => exact .inl rfl
    | some node =>
        obtain ⟨old, rfl⟩ := hplace node hold
        exact .inr ⟨old, rfl⟩
  have hrename := rename_eq hsource htarget
  rw [replaced, temporary_child]
  simp only [steps, hwrite, hrename]

end

def filePath (s : FileStore) (storage : StorageClass) (file : String) : Path :=
  s.classPath storage ++ [file]

theorem filePath_ne_nil (s : FileStore) (storage : StorageClass) (file : String) :
    s.filePath storage file ≠ [] := by
  simp [filePath]

theorem classPath_ne_nil (s : FileStore) (storage : StorageClass) : s.classPath storage ≠ [] := by
  simp [classPath]

theorem classPath_inj {s : FileStore} {a b : StorageClass} :
    s.classPath a = s.classPath b ↔ a = b := by
  refine ⟨fun h => ?_, fun h => h ▸ rfl⟩
  exact StorageClass.text_injective (by simpa [classPath] using h)

theorem filePath_inj {s : FileStore} {a b : StorageClass} {file other : String} :
    s.filePath a file = s.filePath b other ↔ a = b ∧ file = other := by
  constructor
  · intro h
    have hsplit := List.append_inj' h rfl
    exact ⟨classPath_inj.mp hsplit.1, by simpa using hsplit.2⟩
  · rintro ⟨rfl, rfl⟩
    rfl

theorem classPath_ne_filePath (s : FileStore) (a b : StorageClass) (file : String) :
    s.classPath a ≠ s.filePath b file := by
  intro h
  have hlength := congrArg List.length h
  simp [filePath, classPath] at hlength

structure Holds (s : FileStore) (m : KeyMap) : Prop where
  leads : s.tree.Leads s.base
  base : Takes s.base
  classes : ∀ storage, s.tree.find? (s.classPath storage) = some .directory ∨
    s.tree.find? (s.classPath storage) = none ∧ ∀ name, m storage name = []
  files : ∀ storage file, s.tree.find? (s.filePath storage file) =
    (nameOf? file).bind fun name => (KeyMap.held (m storage name)).map fun c => .file (render c)
  nodup : ∀ storage, (s.tree.names (s.classPath storage)).Nodup
  takes : ∀ storage name, m storage name ≠ [] → Takes (s.filePath storage (name ++ ending))

section

variable {s : FileStore} {m : KeyMap} {storage : StorageClass}

theorem Holds.locate_file (h : s.Holds m) {file : String}
    (htakes : Takes (s.filePath storage file)) :
    s.tree.locate (s.filePath storage file) = match s.tree.find? (s.filePath storage file) with
      | some node => .ok node
      | none => .error .notFound := by
  rcases h.classes storage with hclass | ⟨hclass, hnone⟩
  · exact locate_child (h.leads.child hclass) htakes
  · have hfile : s.tree.find? (s.filePath storage file) = none := by
      rw [h.files]
      cases nameOf? file with
      | none => rfl
      | some name => simp [hnone name, KeyMap.held]
    have hsplit : s.filePath storage file = s.base ++ storage.text :: [file] := by
      simp [filePath, classPath]
    rw [hfile, hsplit]
    exact locate_missing h.leads hclass (hsplit ▸ htakes)

theorem Holds.load (h : s.Holds m) {file : String} (htakes : Takes (s.filePath storage file)) :
    s.load (s.filePath storage file) =
      .ok ((nameOf? file).bind fun name => KeyMap.held (m storage name)) := by
  rw [FileStore.load, FileTree.read, h.locate_file htakes, h.files]
  cases nameOf? file with
  | none => rfl
  | some name =>
      simp only [Option.bind_some]
      cases KeyMap.held (m storage name) with
      | none => rfl
      | some c => simp only [Option.map_some, parse_render, Except.map]

theorem keyPath_eq {r : Reference} (hname : isFileName r.name = true) :
    s.keyPath r = .ok (s.filePath r.storage (r.name ++ ending)) :=
  if_pos hname

theorem Holds.get (h : s.Holds m) {r : Reference} (hname : isFileName r.name = true)
    (htakes : Takes (s.filePath r.storage (r.name ++ ending))) (o : StoreOptions) :
    (s.get r o).map Container.keys = m.found r o := by
  have hload := h.load htakes
  rw [nameOf?_eq_some_iff.mpr rfl, Option.bind_some] at hload
  refine KeyMap.found_of_held ?_
  rw [FileStore.get, keyPath_eq hname]
  cases hheld : KeyMap.held (m r.storage r.name) <;> rw [hheld] at hload <;>
    simp only [bind, Except.bind, hload]

theorem not_prefix_classPath (s : FileStore) (storage : StorageClass) :
    ¬ s.classPath storage <+: s.base :=
  not_prefix_append s.base storage.text []

theorem not_prefix_filePath (s : FileStore) (storage : StorageClass) (file : String) :
    ¬ s.filePath storage file <+: s.base := by
  rw [filePath, classPath, List.append_assoc, List.singleton_append]
  exact not_prefix_append s.base storage.text [file]

theorem Holds.makeDirectory (h : s.Holds m) (htakes : Takes (s.classPath storage)) :
    ∃ tree, s.tree.makeDirectories (s.classPath storage) = .ok tree ∧
      Holds ⟨tree, s.base⟩ m ∧ tree.find? (s.classPath storage) = some .directory := by
  rcases h.classes storage with hclass | ⟨hclass, hnone⟩
  · exact ⟨s.tree, makeDirectories_leads (h.leads.child hclass) htakes, h, hclass⟩
  · have hclasses (other : StorageClass) :
        (s.tree.put (s.classPath storage) .directory).find? (s.classPath other) =
          if storage = other then some .directory else s.tree.find? (s.classPath other) := by
      simp only [find?_put _ _ _ (s.classPath_ne_nil other), classPath_inj]
    have hfiles (other : StorageClass) (file : String) :
        (s.tree.put (s.classPath storage) .directory).find? (s.filePath other file) =
          s.tree.find? (s.filePath other file) := by
      rw [find?_put _ _ _ (s.filePath_ne_nil other file),
        if_neg (s.classPath_ne_filePath storage other file)]
    refine ⟨s.tree.put (s.classPath storage) .directory, makeDirectories_new h.leads htakes hclass,
      ?_, (hclasses storage).trans (if_pos rfl)⟩
    refine
      { leads := h.leads.put .directory (s.not_prefix_classPath storage)
        base := h.base
        classes := fun other => ?_
        files := fun other file => (hfiles other file).trans (h.files other file)
        nodup := fun other => nodup_names_put _ (h.nodup other)
        takes := h.takes }
    by_cases hother : storage = other
    · exact .inl ((hclasses other).trans (if_pos hother))
    · have hold := h.classes other
      rw [← (hclasses other).trans (if_neg hother)] at hold
      exact hold

theorem temporary_filePath (s : FileStore) (storage : StorageClass) (file : String) :
    temporary (s.filePath storage file) = s.filePath storage (file ++ temporaryEnding) :=
  temporary_child (s.classPath storage) file

theorem filePath_ne_temporary (s : FileStore) (storage : StorageClass) (file : String) :
    s.filePath storage file ≠ temporary (s.filePath storage file) := by
  rw [temporary_filePath]
  exact child_ne_temporary (s.classPath storage) file

theorem Holds.beside (h : s.Holds m) (storage : StorageClass) (file : String) :
    s.tree.find? (temporary (s.filePath storage file)) = none := by
  rw [temporary_filePath, h.files, nameOf?_temporary]
  rfl

theorem Holds.place (h : s.Holds m) {file : String} {node : Node}
    (hnode : s.tree.find? (s.filePath storage file) = some node) : ∃ old, node = .file old := by
  rw [h.files] at hnode
  obtain ⟨name, -, hname⟩ := Option.bind_eq_some_iff.mp hnode
  obtain ⟨c, -, rfl⟩ := Option.map_eq_some_iff.mp hname
  exact ⟨render c, rfl⟩

theorem Holds.replaced (h : s.Holds m) {r : Reference}
    (hclass : s.tree.find? (s.classPath r.storage) = some .directory)
    (htakes : Takes (s.filePath r.storage (r.name ++ ending))) {key : Jwk} {c : Container}
    (hc : KeyMap.held (key :: m r.storage r.name) = some c) :
    Holds ⟨FileStore.replaced s.tree (s.filePath r.storage (r.name ++ ending)) (render c), s.base⟩
      (m.push r key) := by
  have hfind {q : Path} (hq : q ≠ []) := find?_replaced_new hq
    (s.filePath_ne_temporary r.storage (r.name ++ ending)) (h.beside _ _) (render c)
  refine
    { leads := ?leads
      base := h.base
      classes := fun other => ?classes
      files := fun other file => (hfind (s.filePath_ne_nil other file)).trans ?files
      nodup := fun other =>
        nodup_names_without (nodup_names_put _ (nodup_names_put _ (h.nodup other)))
      takes := fun other name hname => ?takes }
  case leads =>
    have hplace := s.not_prefix_filePath r.storage (r.name ++ ending)
    have hbehind := s.not_prefix_filePath r.storage (r.name ++ ending ++ temporaryEnding)
    rw [← temporary_filePath] at hbehind
    exact ((h.leads.put _ hbehind).put _ hplace).without hbehind
  case classes =>
    have hsame : (FileStore.replaced s.tree _ (render c)).find? (s.classPath other) = _ :=
      (hfind (s.classPath_ne_nil other)).trans (if_neg (s.classPath_ne_filePath other _ _).symm)
    by_cases hother : other = r.storage
    · exact .inl (hsame.trans (hother ▸ hclass))
    · have hold := h.classes other
      rw [← hsame] at hold
      refine hold.imp_right fun ⟨hmissing, hnone⟩ => ⟨hmissing, fun name => ?_⟩
      rw [KeyMap.push_other m (fun hslot => hother hslot.1)]
      exact hnone name
  case files =>
    by_cases hfile : r.storage = other ∧ r.name ++ ending = file
    · obtain ⟨rfl, rfl⟩ := hfile
      rw [if_pos rfl, nameOf?_eq_some_iff.mpr rfl, Option.bind_some, KeyMap.push_same, hc]
      rfl
    · -- A file of another name: also names with dots have files of their own.
      rw [if_neg (fun heq => hfile (filePath_inj.mp heq)), h.files]
      cases hname : nameOf? file with
      | none => rfl
      | some name =>
          have hslot : ¬ (other = r.storage ∧ name = r.name) := by
            rintro ⟨rfl, rfl⟩
            exact hfile ⟨rfl, (nameOf?_eq_some_iff.mp hname).symm⟩
          rw [Option.bind_some, Option.bind_some, KeyMap.push_other m hslot]
  case takes =>
    by_cases hslot : other = r.storage ∧ name = r.name
    · rw [hslot.1, hslot.2]
      exact htakes
    · rw [KeyMap.push_other m hslot] at hname
      exact h.takes other name hname

theorem Holds.save (h : s.Holds m) {r : Reference} (hname : isFileName r.name = true)
    (htakes : Takes (s.filePath r.storage (r.name ++ ending ++ temporaryEnding))) (key : Jwk) :
    ∃ tree, s.save r key = (.ok (), ⟨tree, s.base⟩) ∧ Holds ⟨tree, s.base⟩ (m.push r key) := by
  have hpath : Takes (s.filePath r.storage (r.name ++ ending)) := htakes.last
  obtain ⟨tree, hmade, hholds, hclass⟩ := h.makeDirectory htakes.left
  have hbeside := hholds.beside r.storage (r.name ++ ending)
  rw [temporary_filePath] at hbeside
  have hreplace (c : Container) := steps_replace (hholds.leads.child hclass) htakes
    (hbeside.trans_ne (Option.some_ne_none _).symm) (fun node hnode => hholds.place hnode)
    (render c)
  have hsteps (c : Container) : steps (saveSteps (s.filePath r.storage (r.name ++ ending))
      (render c)) s.tree =
        (true, FileStore.replaced tree (s.filePath r.storage (r.name ++ ending)) (render c)) := by
    have hparent : (s.filePath r.storage (r.name ++ ending)).dropLast = s.classPath r.storage :=
      List.dropLast_concat
    rw [saveSteps, steps, hparent, hmade]
    exact hreplace c
  refine ⟨_, ?_, hholds.replaced hclass hpath (KeyMap.held_push (m r.storage r.name) key)⟩
  rw [FileStore.save, keyPath_eq hname]
  simp only [bind, Except.bind, h.load hpath, nameOf?_eq_some_iff.mpr rfl, Option.bind_some, pure,
    Except.pure, hsteps, if_true]
  rfl

def listingOf? (m : KeyMap) (storage : StorageClass) (o : StoreOptions) (file : String) :
    Option (String × Listing) :=
  (nameOf? file).bind fun name =>
    (KeyMap.held (m storage name)).map fun c => (name, o.listing c)

theorem listingOf?_eq_some_iff {o : StoreOptions} {file name : String} {listing : Listing} :
    listingOf? m storage o file = some (name, listing) ↔ file = name ++ ending ∧
      ∃ c, KeyMap.held (m storage name) = some c ∧ listing = o.listing c := by
  rw [listingOf?, Option.bind_eq_some_iff]
  constructor
  · rintro ⟨name', hname, hentry⟩
    obtain ⟨c, hc, heq⟩ := Option.map_eq_some_iff.mp hentry
    cases heq
    exact ⟨nameOf?_eq_some_iff.mp hname, c, hc, rfl⟩
  · rintro ⟨hname, c, hc, rfl⟩
    exact ⟨name, nameOf?_eq_some_iff.mpr hname, Option.map_eq_some_iff.mpr ⟨c, hc, rfl⟩⟩

theorem Holds.listFiles (h : s.Holds m) (o : StoreOptions) {files : List String}
    (htakes : ∀ file ∈ files, Takes (s.filePath storage file)) :
    s.listFiles (s.classPath storage) o files = .ok (files.filterMap (listingOf? m storage o)) := by
  induction files with
  | nil => rfl
  | cons file files ih =>
      obtain ⟨hfile, hfiles⟩ := List.forall_mem_cons.mp htakes
      have hload := h.load hfile
      rw [filePath] at hload
      rw [FileStore.listFiles, List.filterMap_cons, listingOf?]
      cases hname : nameOf? file with
      | none => exact ih hfiles
      | some name =>
          rw [hname] at hload
          simp only [bind, Except.bind, hload, Option.bind_some, ih hfiles]
          cases KeyMap.held (m storage name) <;> rfl

theorem Holds.mem_names (h : s.Holds m) {file : String} :
    file ∈ s.tree.names (s.classPath storage) ↔
      ∃ name c, file = name ++ ending ∧ KeyMap.held (m storage name) = some c := by
  rw [FileTree.mem_names]
  change (s.tree.find? (s.filePath storage file)).isSome = true ↔ _
  simp [h.files, Option.isSome_iff_exists, Option.bind_eq_some_iff, nameOf?_eq_some_iff]

theorem Holds.takes_name (h : s.Holds m) {file : String}
    (hfile : file ∈ s.tree.names (s.classPath storage)) : Takes (s.filePath storage file) := by
  obtain ⟨name, c, rfl, hc⟩ := h.mem_names.mp hfile
  refine h.takes storage name fun hnone => ?_
  rw [KeyMap.held_eq_none_iff.mpr hnone] at hc
  cases hc

theorem Holds.listed (h : s.Holds m) (storage : StorageClass) (o : StoreOptions) :
    m.Listed storage o (Listing.sorted
      ((s.tree.names (s.classPath storage)).filterMap (listingOf? m storage o))) := by
  refine KeyMap.listed_sorted ?_ fun name listing => ?_
  · rw [List.map_filterMap]
    refine (h.nodup storage).filterMap fun file other name hname hother => ?_
    obtain ⟨⟨_, _⟩, hentry, rfl⟩ := Option.map_eq_some_iff.mp hname
    obtain ⟨⟨_, _⟩, hentry', rfl⟩ := Option.map_eq_some_iff.mp hother
    rw [(listingOf?_eq_some_iff.mp hentry).1, (listingOf?_eq_some_iff.mp hentry').1]
  · rw [List.mem_filterMap]
    constructor
    · rintro ⟨file, -, hentry⟩
      exact (listingOf?_eq_some_iff.mp hentry).2
    · rintro ⟨c, hc, rfl⟩
      exact ⟨name ++ ending, h.mem_names.mpr ⟨name, c, rfl, hc⟩,
        listingOf?_eq_some_iff.mpr ⟨rfl, c, hc, rfl⟩⟩

theorem Holds.list (h : s.Holds m) (o : StoreOptions) (htakes : Takes (s.classPath storage)) :
    ∃ entries, s.list storage o = .ok entries ∧ m.Listed storage o entries := by
  refine ⟨_, ?_, h.listed storage o⟩
  rcases h.classes storage with hclass | ⟨hclass, hnone⟩
  · have hentries : s.tree.entries (s.classPath storage) =
        .ok (s.tree.names (s.classPath storage)) :=
      entries_eq (locate_leads (h.leads.child hclass) htakes)
    have hfiles : s.listFiles (s.classPath storage) o (s.tree.names (s.classPath storage)) = _ :=
      h.listFiles o fun file hfile => h.takes_name hfile
    rw [FileStore.list, hentries]
    simp only [hfiles]
    rfl
  · have hnames : s.tree.names (s.classPath storage) = [] := by
      refine List.eq_nil_iff_forall_not_mem.mpr fun file hfile => ?_
      obtain ⟨name, c, -, hc⟩ := h.mem_names.mp hfile
      rw [hnone name] at hc
      cases hc
    have hmissing : s.tree.entries (s.classPath storage) = .error .notFound := by
      rw [entries, classPath, locate_missing h.leads hclass htakes]
    rw [FileStore.list, hmissing, hnames, List.filterMap_nil, Listing.sorted, List.mergeSort_nil]

end

end FileStore

end JoseTokens
