import JoseTokens.Proofs.Store.Entries
import JoseTokens.Store.FileTree
import Mathlib.Data.List.Basic
import Mathlib.Data.List.Infix

namespace JoseTokens.FileTree

open Entries

variable {t : FileTree}

def pathSize : Path → Nat
  | [] => 0
  | name :: rest => 1 + name.utf8ByteSize + pathSize rest

def Takes (path : Path) : Prop :=
  pathSize path ≤ maxPathSize ∧
    ∀ name ∈ path, name.utf8ByteSize ≤ maxNameSize ∧ '\x00' ∉ name.toList

instance : DecidablePred Takes :=
  fun path => inferInstanceAs (Decidable (_ ∧ ∀ name ∈ path, _))

theorem pathSize_append (path rest : Path) :
    pathSize (path ++ rest) = pathSize path + pathSize rest := by
  induction path with
  | nil => rw [List.nil_append, pathSize, Nat.zero_add]
  | cons name path ih => rw [List.cons_append, pathSize, ih, pathSize, Nat.add_assoc _ (pathSize _)]

theorem utf8ByteSize_path (path : Path) :
    (String.join (path.map ("/" ++ ·))).utf8ByteSize = pathSize path := by
  induction path with
  | nil => rfl
  | cons name path ih =>
      rw [List.map_cons, String.join_cons, String.utf8ByteSize_append, String.utf8ByteSize_append,
        ih]
      rfl

theorem isSpeakable_iff {path : Path} : isSpeakable path = true ↔
    pathSize path ≤ maxPathSize ∧ ∀ name ∈ path, '\x00' ∉ name.toList := by
  simp [isSpeakable, utf8ByteSize_path]

theorem Takes.isSpeakable {path : Path} (h : Takes path) : isSpeakable path = true :=
  isSpeakable_iff.mpr ⟨h.1, fun name hname => (h.2 name hname).2⟩

theorem Takes.left {path rest : Path} (h : Takes (path ++ rest)) : Takes path := by
  refine ⟨?_, fun name hname => h.2 name (List.mem_append_left _ hname)⟩
  have hsize := h.1
  rw [pathSize_append] at hsize
  omega

theorem Takes.last {dir : Path} {name ending : String} (h : Takes (dir ++ [name ++ ending])) :
    Takes (dir ++ [name]) := by
  obtain ⟨hpath, hnames⟩ := h
  obtain ⟨hdir, hlast⟩ := List.forall_mem_append.mp hnames
  obtain ⟨hsize, hnull⟩ := List.forall_mem_singleton.mp hlast
  rw [pathSize_append, pathSize, String.utf8ByteSize_append] at hpath
  rw [String.utf8ByteSize_append] at hsize
  rw [String.toList_append, List.mem_append, not_or] at hnull
  refine ⟨?_, List.forall_mem_append.mpr ⟨hdir, List.forall_mem_singleton.mpr ⟨?_, hnull.1⟩⟩⟩
  · rw [pathSize_append, pathSize]
    omega
  · omega

theorem find?_eq (t : FileTree) {path : Path} (h : path ≠ []) :
    t.find? path = lookUp t.nodes path := by
  rw [find?, if_neg (by simpa using h)]
  rfl

def put (t : FileTree) (path : Path) (node : Node) : FileTree :=
  ⟨set path node t.nodes⟩

def without (t : FileTree) (path : Path) : FileTree :=
  ⟨t.nodes.filter fun (p, _) => p != path⟩

theorem set_eq (path : Path) (node : Node) (nodes : List (Path × Node)) :
    set path node nodes = change path (fun _ => node) nodes := by
  induction nodes with
  | nil => rfl
  | cons entry nodes ih =>
      obtain ⟨p, old⟩ := entry
      rw [set, change, ih]

theorem find?_put (t : FileTree) (path : Path) (node : Node) {q : Path} (hq : q ≠ []) :
    (t.put path node).find? q = if path = q then some node else t.find? q := by
  rw [find?_eq _ hq, find?_eq _ hq, put, set_eq, lookUp_change]

theorem find?_without (t : FileTree) (path : Path) {q : Path} (hq : q ≠ []) :
    (t.without path).find? q = if path = q then none else t.find? q := by
  rw [find?_eq _ hq, find?_eq _ hq, without, lookUp_without]

theorem isSome_find? (t : FileTree) {path : Path} (h : path ≠ []) :
    (t.find? path).isSome = true ↔ path ∈ keys t.nodes := by
  rw [find?_eq _ h, isSome_lookUp]

theorem put_new {path : Path} (node : Node) (hpath : path ≠ []) (h : t.find? path = none) :
    t.put path node = ⟨t.nodes ++ [(path, node)]⟩ := by
  have hnew : path ∉ keys t.nodes := by
    rw [← t.isSome_find? hpath, h]
    simp
  rw [put, set_eq, change_new hnew]

def names (t : FileTree) (dir : Path) : List String :=
  t.nodes.filterMap fun (p, _) => if p.dropLast == dir then p.getLast? else none

theorem names_eq (t : FileTree) (dir : Path) :
    t.names dir = (keys t.nodes).filterMap fun p =>
      if p.dropLast == dir then p.getLast? else none := by
  rw [keys, List.filterMap_map]
  rfl

theorem name_eq_some_iff {p dir : Path} {name : String} :
    (if p.dropLast == dir then p.getLast? else none) = some name ↔ p = dir ++ [name] := by
  rcases List.eq_nil_or_concat p with rfl | ⟨start, last, rfl⟩
  · simp
  · by_cases hstart : start = dir
    · simp [hstart]
    · have hne : start ++ [last] ≠ dir ++ [name] := fun h => hstart (List.append_inj' h rfl).1
      simp [hstart, hne]

theorem mem_names {dir : Path} {name : String} :
    name ∈ t.names dir ↔ (t.find? (dir ++ [name])).isSome = true := by
  rw [isSome_find? t (by simp), names_eq, List.mem_filterMap]
  simp only [name_eq_some_iff, exists_eq_right]

theorem names_eq_nil {dir : Path} (h : ∀ name, t.find? (dir ++ [name]) = none) :
    t.names dir = [] := by
  refine List.eq_nil_iff_forall_not_mem.mpr fun name hname => ?_
  rw [mem_names, h name] at hname
  cases hname

theorem nodup_names_put {path dir : Path} (node : Node) (h : (t.names dir).Nodup) :
    ((t.put path node).names dir).Nodup := by
  rw [names_eq] at h ⊢
  rw [put, set_eq]
  by_cases hpath : path ∈ keys t.nodes
  · rwa [keys_change_old hpath]
  · rw [change_new hpath, keys, List.map_append, List.filterMap_append]
    refine List.nodup_append.mpr ⟨h, ?_, ?_⟩
    · exact (List.nodup_singleton path).filterMap fun p q name hp hq => by
        rw [name_eq_some_iff.mp hp, name_eq_some_iff.mp hq]
    · rintro name hname _ hother rfl
      obtain ⟨p, hp, hpname⟩ := List.mem_filterMap.mp hname
      obtain ⟨q, hq, hqname⟩ := List.mem_filterMap.mp hother
      obtain rfl : q = path := by simpa using hq
      rw [name_eq_some_iff.mp hqname, ← name_eq_some_iff.mp hpname] at hpath
      exact hpath hp

theorem nodup_names_without {path dir : Path} (h : (t.names dir).Nodup) :
    ((t.without path).names dir).Nodup :=
  h.sublist (List.filter_sublist.filterMap _)

def Leads (t : FileTree) (dir : Path) : Prop :=
  ∀ p, p <+: dir → t.find? p = some .directory

theorem locateFrom_leads {done path : Path} (rest : Path)
    (hleads : ∀ p, p <+: path → p ≠ path → t.find? (done ++ p) = some .directory)
    (hsizes : ∀ name ∈ path, name.utf8ByteSize ≤ maxNameSize) :
    t.locateFrom done (path ++ rest) = t.locateFrom (done ++ path) rest := by
  induction path generalizing done with
  | nil => rw [List.nil_append, List.append_nil]
  | cons name path ih =>
      obtain ⟨hname, hsizes⟩ := List.forall_mem_cons.mp hsizes
      have hdone : t.find? done = some .directory := by
        simpa using hleads [] List.nil_prefix (List.cons_ne_nil name path).symm
      have hinner : ∀ p, p <+: path → p ≠ path →
          t.find? (done ++ [name] ++ p) = some .directory := by
        intro p hp hne
        rw [List.append_assoc, List.singleton_append]
        exact hleads (name :: p) (List.cons_prefix_cons.mpr ⟨rfl, hp⟩) (by simpa using hne)
      have hnext := ih hinner hsizes
      rw [List.cons_append, locateFrom, hdone]
      simp only [if_neg (Nat.not_lt.mpr hname), hnext]
      rw [List.append_assoc, List.singleton_append]

theorem locate_below {dir rest : Path} {name : String} (hleads : t.Leads dir)
    (htakes : Takes (dir ++ name :: rest)) :
    t.locate (dir ++ name :: rest) = t.locateFrom (dir ++ [name]) rest := by
  have hsplit : dir ++ name :: rest = (dir ++ [name]) ++ rest := by simp
  rw [locate, if_pos htakes.isSpeakable, hsplit]
  rw [hsplit] at htakes
  refine locateFrom_leads rest (fun p hp hne => ?_) fun n hn => (htakes.left.2 n hn).1
  rcases List.prefix_concat_iff.mp hp with heq | hp
  · exact absurd heq hne
  · exact hleads p hp

theorem locate_child {dir : Path} {name : String} (hleads : t.Leads dir)
    (htakes : Takes (dir ++ [name])) :
    t.locate (dir ++ [name]) = match t.find? (dir ++ [name]) with
      | some node => .ok node
      | none => .error .notFound := by
  rw [locate_below hleads htakes]
  cases hfound : t.find? (dir ++ [name]) <;> rw [locateFrom, hfound]

theorem locate_missing {dir rest : Path} {name : String} (hleads : t.Leads dir)
    (hnone : t.find? (dir ++ [name]) = none) (htakes : Takes (dir ++ name :: rest)) :
    t.locate (dir ++ name :: rest) = .error .notFound := by
  rw [locate_below hleads htakes]
  cases rest <;> rw [locateFrom, hnone]

theorem locate_leads {dir : Path} (hleads : t.Leads dir) (htakes : Takes dir) :
    t.locate dir = .ok .directory := by
  have hfrom : t.locateFrom [] (dir ++ []) = t.locateFrom ([] ++ dir) [] :=
    locateFrom_leads [] (fun p hp _ => hleads p hp) fun name hname => (htakes.2 name hname).1
  rw [List.append_nil] at hfrom
  rw [locate, if_pos htakes.isSpeakable, hfrom, List.nil_append, locateFrom,
    hleads dir List.prefix_rfl]

theorem takes_of_locate {dir : Path} {name : String} (hleads : t.Leads dir) (hdir : Takes dir)
    (h : t.locate (dir ++ [name]) ≠ .error .refused) : Takes (dir ++ [name]) := by
  have hspeakable : FileTree.isSpeakable (dir ++ [name]) = true := by
    by_contra hnot
    exact h (by rw [locate, if_neg hnot])
  have hfrom : t.locateFrom [] (dir ++ [name]) = t.locateFrom ([] ++ dir) [name] :=
    locateFrom_leads [name] (fun p hp _ => hleads p hp) fun n hn => (hdir.2 n hn).1
  have hsize : name.utf8ByteSize ≤ maxNameSize := by
    by_contra hnot
    refine h ?_
    rw [locate, if_pos hspeakable, hfrom, List.nil_append, locateFrom, hleads dir List.prefix_rfl]
    simp only [if_pos (Nat.lt_of_not_le hnot)]
  obtain ⟨hsum, hnull⟩ := isSpeakable_iff.mp hspeakable
  refine ⟨hsum, List.forall_mem_append.mpr ⟨hdir.2, List.forall_mem_singleton.mpr ⟨hsize, ?_⟩⟩⟩
  exact hnull name (by simp)

theorem entries_eq {dir : Path} (h : t.locate dir = .ok .directory) :
    t.entries dir = .ok (t.names dir) := by
  rw [entries, h]
  rfl

def Free (t : FileTree) (path : Path) : Prop :=
  t.locate path = .error .notFound ∨ ∃ data, t.locate path = .ok (.file data)

theorem write_eq {path : Path} (hdir : t.locate path.dropLast = .ok .directory)
    (hfree : t.Free path) (data : Bytes) : t.write path data = .ok (t.put path (.file data)) := by
  rcases hfree with hlocate | ⟨old, hlocate⟩ <;> rw [write, hdir, hlocate] <;> rfl

theorem rename_eq {source target : Path} {data : Bytes}
    (hsource : t.locate source = .ok (.file data)) (hfree : t.Free target) :
    t.rename source target = .ok ((t.put target (.file data)).without source) := by
  rcases hfree with hlocate | ⟨old, hlocate⟩ <;> rw [rename, hsource, hlocate] <;> rfl

theorem Leads.child {dir : Path} {name : String} (hleads : t.Leads dir)
    (hname : t.find? (dir ++ [name]) = some .directory) : t.Leads (dir ++ [name]) := by
  intro p hp
  rcases List.prefix_concat_iff.mp hp with rfl | hp
  · exact hname
  · exact hleads p hp

theorem Leads.left {dir rest : Path} (h : t.Leads (dir ++ rest)) : t.Leads dir :=
  fun p hp => h p (hp.trans (List.prefix_append dir rest))

theorem Leads.put {dir path : Path} (h : t.Leads dir) (node : Node) (hpath : ¬ path <+: dir) :
    (t.put path node).Leads dir := by
  intro p hp
  by_cases hroot : p = []
  · rw [hroot]
    rfl
  · rw [find?_put _ _ _ hroot, if_neg (fun heq : path = p => hpath (heq ▸ hp))]
    exact h p hp

theorem Leads.without {dir path : Path} (h : t.Leads dir) (hpath : ¬ path <+: dir) :
    (t.without path).Leads dir := by
  intro p hp
  by_cases hroot : p = []
  · rw [hroot]
    rfl
  · rw [find?_without _ _ hroot, if_neg (fun heq : path = p => hpath (heq ▸ hp))]
    exact h p hp

theorem not_prefix_append (dir : Path) (name : String) (rest : Path) :
    ¬ dir ++ name :: rest <+: dir := by
  intro h
  have hlength := h.length_le
  rw [List.length_append, List.length_cons] at hlength
  omega

theorem makeDirectoriesFrom_leads {done path : Path} (rest : Path)
    (hleads : t.Leads (done ++ path)) (htakes : Takes (done ++ path)) :
    t.makeDirectoriesFrom done (path ++ rest) = t.makeDirectoriesFrom (done ++ path) rest := by
  induction path generalizing done with
  | nil => rw [List.nil_append, List.append_nil]
  | cons name path ih =>
      have hsplit : done ++ name :: path = done ++ [name] ++ path := by simp
      rw [hsplit] at hleads htakes ⊢
      have hlocate := locate_leads hleads.left htakes.left
      rw [List.cons_append, makeDirectoriesFrom]
      simp only [hlocate, ih hleads htakes]

theorem makeDirectories_leads {dir : Path} (hleads : t.Leads dir) (htakes : Takes dir) :
    t.makeDirectories dir = .ok t := by
  have hfrom : t.makeDirectoriesFrom [] (dir ++ []) = t.makeDirectoriesFrom ([] ++ dir) [] :=
    makeDirectoriesFrom_leads [] hleads htakes
  rw [List.append_nil] at hfrom
  rw [makeDirectories, hfrom, makeDirectoriesFrom]

theorem makeDirectories_new {dir : Path} {name : String} (hleads : t.Leads dir)
    (htakes : Takes (dir ++ [name])) (hnew : t.find? (dir ++ [name]) = none) :
    t.makeDirectories (dir ++ [name]) = .ok (t.put (dir ++ [name]) .directory) := by
  have hfrom : t.makeDirectoriesFrom [] (dir ++ [name]) =
      t.makeDirectoriesFrom ([] ++ dir) [name] :=
    makeDirectoriesFrom_leads [name] hleads htakes.left
  rw [makeDirectories, hfrom, List.nil_append, makeDirectoriesFrom]
  simp only [locate_child hleads htakes, hnew, makeDirectoriesFrom,
    put_new .directory (by simp) hnew]

theorem makeDirectoriesFrom_cons {t' : FileTree} {done path : Path} {name : String}
    (h : t.makeDirectoriesFrom done (name :: path) = .ok t') (hleads : t.Leads done)
    (hdone : Takes done) : Takes (done ++ [name]) ∧
      (t.find? (done ++ [name]) = some .directory ∧
          t.makeDirectoriesFrom (done ++ [name]) path = .ok t' ∨
        t.find? (done ++ [name]) = none ∧
          (t.put (done ++ [name]) .directory).makeDirectoriesFrom (done ++ [name]) path =
            .ok t') := by
  rw [makeDirectoriesFrom] at h
  have htakes : Takes (done ++ [name]) := by
    refine takes_of_locate hleads hdone fun hrefused => ?_
    simp only [hrefused] at h
    cases h
  have hlocate := locate_child hleads htakes
  refine ⟨htakes, ?_⟩
  cases hfound : t.find? (done ++ [name]) with
  | none =>
      simp only [hlocate, hfound] at h
      exact .inr ⟨rfl, put_new .directory (by simp) hfound ▸ h⟩
  | some node =>
      cases node with
      | file data =>
          simp only [hlocate, hfound] at h
          cases h
      | directory =>
          simp only [hlocate, hfound] at h
          exact .inl ⟨rfl, h⟩

theorem leads_put_directory {dir : Path} (hleads : t.Leads dir) (name : String) :
    (t.put (dir ++ [name]) .directory).Leads (dir ++ [name]) :=
  (hleads.put .directory (not_prefix_append dir name [])).child
    (by rw [find?_put _ _ _ (by simp), if_pos rfl])

theorem of_makeDirectoriesFrom {t' : FileTree} {done path : Path}
    (h : t.makeDirectoriesFrom done path = .ok t') (hleads : t.Leads done) (hdone : Takes done) :
    t'.Leads (done ++ path) ∧ Takes (done ++ path) ∧
      ∀ q, ¬ q <+: done ++ path → t'.find? q = t.find? q := by
  induction path generalizing t done with
  | nil =>
      cases h
      rw [List.append_nil]
      exact ⟨hleads, hdone, fun _ _ => rfl⟩
  | cons name path ih =>
      have hsplit : done ++ name :: path = done ++ [name] ++ path := by simp
      rw [hsplit]
      obtain ⟨htakes, ⟨hname, h⟩ | ⟨-, h⟩⟩ := makeDirectoriesFrom_cons h hleads hdone
      · exact ih h (hleads.child hname) htakes
      · obtain ⟨hall, hpath, hother⟩ := ih h (leads_put_directory hleads name) htakes
        refine ⟨hall, hpath, fun q hq => ?_⟩
        have hroot : q ≠ [] := by
          rintro rfl
          exact hq List.nil_prefix
        have hne : done ++ [name] ≠ q := by
          rintro rfl
          exact hq (List.prefix_append _ _)
        rw [hother q hq, find?_put _ _ _ hroot, if_neg hne]

end JoseTokens.FileTree
