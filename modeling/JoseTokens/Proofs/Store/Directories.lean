import JoseTokens.Proofs.Store.FileTree

namespace JoseTokens.FileTree

open Entries

variable {t t' : FileTree}

def Rooted (t : FileTree) : Prop :=
  ∀ entry ∈ t.nodes, t.find? entry.1.dropLast = some .directory

instance : DecidablePred Rooted :=
  fun t => inferInstanceAs (Decidable (∀ entry ∈ t.nodes, _))

theorem find?_put_of_ne (t : FileTree) {path q : Path} (node : Node) (h : path ≠ q) :
    (t.put path node).find? q = t.find? q := by
  by_cases hq : q = []
  · rw [hq]
    rfl
  · rw [find?_put _ _ _ hq, if_neg h]

theorem find?_put_self (t : FileTree) {path : Path} (node : Node) (h : path ≠ []) :
    (t.put path node).find? path = some node := by
  rw [find?_put _ _ _ h, if_pos rfl]

theorem find?_without_of_ne (t : FileTree) {path q : Path} (h : path ≠ q) :
    (t.without path).find? q = t.find? q := by
  by_cases hq : q = []
  · rw [hq]
    rfl
  · rw [find?_without _ _ hq, if_neg h]

theorem rooted_iff : t.Rooted ↔
    ∀ dir name, (t.find? (dir ++ [name])).isSome = true → t.find? dir = some .directory := by
  constructor
  · intro h dir name hsome
    rw [isSome_find? _ (by simp)] at hsome
    obtain ⟨entry, hentry, hpath⟩ := List.mem_map.mp hsome
    have hparent := h entry hentry
    rwa [hpath, List.dropLast_concat] at hparent
  · intro h entry hentry
    rcases List.eq_nil_or_concat' entry.1 with hroot | ⟨dir, name, hpath⟩
    · rw [hroot]
      rfl
    · rw [hpath, List.dropLast_concat]
      refine h dir name ?_
      rw [isSome_find? _ (by simp), ← hpath]
      exact List.mem_map_of_mem hentry

theorem Rooted.child_none (h : t.Rooted) {dir : Path} (hdir : t.find? dir ≠ some .directory)
    (name : String) : t.find? (dir ++ [name]) = none :=
  Option.not_isSome_iff_eq_none.mp fun hsome => hdir (rooted_iff.mp h dir name hsome)

theorem leads_root (t : FileTree) : t.Leads [] := by
  intro p hp
  rw [List.prefix_nil.mp hp]
  rfl

theorem Rooted.leads (h : t.Rooted) {dir : Path} (hdir : t.find? dir = some .directory) :
    t.Leads dir := by
  induction dir using List.reverseRecOn with
  | nil => exact t.leads_root
  | append_singleton dir name ih =>
      have hparent := rooted_iff.mp h dir name (by rw [hdir]; rfl)
      exact (ih hparent).child hdir

theorem Rooted.put (h : t.Rooted) {dir : Path} {name : String} (node : Node)
    (hdir : t.find? dir = some .directory) (hplace : t.find? (dir ++ [name]) ≠ some .directory) :
    (t.put (dir ++ [name]) node).Rooted := by
  refine rooted_iff.mpr fun d n hsome => ?_
  have hd : t.find? d = some .directory := by
    by_cases hpath : dir ++ [name] = d ++ [n]
    · rw [← (List.append_inj' hpath rfl).1]
      exact hdir
    · rw [find?_put_of_ne _ _ hpath] at hsome
      exact rooted_iff.mp h d n hsome
  rwa [find?_put_of_ne]
  rintro rfl
  exact hplace hd

theorem Rooted.without (h : t.Rooted) {path : Path} (hplace : t.find? path ≠ some .directory) :
    (t.without path).Rooted := by
  refine rooted_iff.mpr fun d n hsome => ?_
  have hpath : path ≠ d ++ [n] := by
    rintro rfl
    rw [find?_without _ _ (by simp), if_pos rfl] at hsome
    cases hsome
  rw [find?_without_of_ne _ hpath] at hsome
  have hd := rooted_iff.mp h d n hsome
  rwa [find?_without_of_ne]
  rintro rfl
  exact hplace hd

section

variable {dir : Path} {name : String}

theorem names_put (t : FileTree) (dir : Path) (name : String) (node : Node) :
    (t.put (dir ++ [name]) node).names dir =
      if (t.find? (dir ++ [name])).isSome then t.names dir else t.names dir ++ [name] := by
  rw [names_eq, names_eq, put, set_eq]
  by_cases hold : dir ++ [name] ∈ keys t.nodes
  · rw [keys_change_old hold, if_pos ((isSome_find? _ (by simp)).mpr hold)]
  · rw [change_new hold, if_neg (fun hsome => hold ((isSome_find? _ (by simp)).mp hsome)), keys,
      List.map_append, List.filterMap_append]
    simp [keys]

theorem names_put_other {other : Path} (node : Node) (h : other ≠ dir) :
    (t.put (dir ++ [name]) node).names other = t.names other := by
  rw [names_eq, names_eq, put, set_eq]
  by_cases hold : dir ++ [name] ∈ keys t.nodes
  · rw [keys_change_old hold]
  · rw [change_new hold, keys, List.map_append, List.filterMap_append]
    simp [keys, Ne.symm h]

theorem keys_without (t : FileTree) (path : Path) :
    keys (t.without path).nodes = (keys t.nodes).filter (· != path) := by
  rw [keys, keys, without, List.filter_map]
  rfl

theorem names_without (t : FileTree) (dir : Path) (name : String) :
    (t.without (dir ++ [name])).names dir = (t.names dir).filter (· != name) := by
  rw [names_eq, names_eq, keys_without, List.filterMap_filter, List.filter_filterMap]
  refine List.filterMap_congr fun p _ => ?_
  cases hname : (if p.dropLast == dir then p.getLast? else none) with
  | none => simp
  | some n =>
      obtain rfl := name_eq_some_iff.mp hname
      by_cases hn : n = name <;> simp [hn, Option.filter]

theorem names_without_other {other : Path} (h : other ≠ dir) :
    (t.without (dir ++ [name])).names other = t.names other := by
  rw [names_eq, names_eq, keys_without, List.filterMap_filter]
  refine List.filterMap_congr fun p _ => ?_
  by_cases hp : p = dir ++ [name]
  · simp [hp, Ne.symm h]
  · simp [hp]

end

theorem locateFrom_append (t : FileTree) (done path rest : Path) :
    t.locateFrom done (path ++ rest) =
      (t.locateFrom done path).bind fun _ => t.locateFrom (done ++ path) rest := by
  induction path generalizing done with
  | nil =>
      rw [List.nil_append, List.append_nil, locateFrom]
      cases hfound : t.find? done with
      | none => cases rest <;> rw [locateFrom, hfound] <;> rfl
      | some node => rfl
  | cons name path ih =>
      rw [List.cons_append, locateFrom, locateFrom]
      split
      · rfl
      · rfl
      · split
        · rfl
        · rw [ih, List.append_assoc, List.singleton_append]

theorem find?_of_locateFrom {done path : Path} {node : Node}
    (h : t.locateFrom done path = .ok node) : t.find? (done ++ path) = some node := by
  induction path generalizing done with
  | nil =>
      rw [locateFrom] at h
      rw [List.append_nil]
      split at h
      next hfound => rw [hfound, Except.ok.inj h]
      · cases h
  | cons name path ih =>
      rw [locateFrom] at h
      split at h
      · cases h
      · cases h
      · split at h
        · cases h
        · rw [← ih h, List.append_assoc, List.singleton_append]

theorem find?_of_locate {path : Path} {node : Node} (h : t.locate path = .ok node) :
    t.find? path = some node := by
  rw [locate] at h
  split at h
  · simpa using find?_of_locateFrom h
  · cases h

theorem isSpeakable_left {path rest : Path} (h : isSpeakable (path ++ rest) = true) :
    isSpeakable path = true := by
  obtain ⟨hsize, hnull⟩ := isSpeakable_iff.mp h
  rw [pathSize_append] at hsize
  exact isSpeakable_iff.mpr ⟨by omega, fun name hname => hnull name (List.mem_append_left _ hname)⟩

theorem locate_concat {dir : Path} {name : String} (h : isSpeakable (dir ++ [name]) = true) :
    t.locate (dir ++ [name]) = match t.locate dir with
      | .ok .directory =>
          if maxNameSize < name.utf8ByteSize then .error .refused
          else match t.find? (dir ++ [name]) with
            | some node => .ok node
            | none => .error .notFound
      | .ok (.file _) => .error .refused
      | .error fault => .error fault := by
  rw [locate, if_pos h, locate, if_pos (isSpeakable_left h), locateFrom_append, List.nil_append]
  cases hlocate : t.locateFrom [] dir with
  | error fault => rfl
  | ok node =>
      have hfound := find?_of_locateFrom hlocate
      rw [List.nil_append] at hfound
      rw [Except.bind, locateFrom, hfound]
      cases node <;> rfl

theorem locateFrom_congr {done path : Path}
    (h : ∀ p, p <+: path → t'.find? (done ++ p) = t.find? (done ++ p)) :
    t'.locateFrom done path = t.locateFrom done path := by
  have hdone : t'.find? done = t.find? done := by simpa using h [] List.nil_prefix
  induction path generalizing done with
  | nil => rw [locateFrom, locateFrom, hdone]
  | cons name path ih =>
      have hinner : ∀ p, p <+: path →
          t'.find? (done ++ [name] ++ p) = t.find? (done ++ [name] ++ p) := by
        intro p hp
        rw [List.append_assoc, List.singleton_append]
        exact h (name :: p) (List.cons_prefix_cons.mpr ⟨rfl, hp⟩)
      rw [locateFrom, locateFrom, hdone, ih hinner (by simpa using hinner [] List.nil_prefix)]

theorem locate_congr {path : Path} (h : ∀ p, p <+: path → t'.find? p = t.find? p) :
    t'.locate path = t.locate path := by
  rw [locate, locate, locateFrom_congr (by simpa using h)]

theorem Free.takes {dir : Path} {name : String} (hfree : t.Free (dir ++ [name]))
    (hleads : t.Leads dir) (hdir : Takes dir) : Takes (dir ++ [name]) := by
  refine takes_of_locate hleads hdir fun hrefused => ?_
  rw [Free, hrefused] at hfree
  simp at hfree

theorem Free.find?_ne {dir : Path} {name : String} (hfree : t.Free (dir ++ [name]))
    (hleads : t.Leads dir) (hdir : Takes dir) : t.find? (dir ++ [name]) ≠ some .directory := by
  intro hdirectory
  have htakes := hfree.takes hleads hdir
  rw [Free, locate_child hleads htakes, hdirectory] at hfree
  simp at hfree

theorem write_refused {dir : Path} {name : String} (hleads : t.Leads dir)
    (hdir : Takes dir)
    (h : ¬ (Takes (dir ++ [name]) ∧ t.find? (dir ++ [name]) ≠ some .directory)) (data : Bytes) :
    t.write (dir ++ [name]) data = .error .refused := by
  rw [write, List.dropLast_concat, locate_leads hleads hdir]
  by_cases htakes : Takes (dir ++ [name])
  · have hdirectory : t.find? (dir ++ [name]) = some .directory := by
      by_contra hnot
      exact h ⟨htakes, hnot⟩
    rw [locate_child hleads htakes, hdirectory]
  · have hrefused : t.locate (dir ++ [name]) = .error .refused := by
      by_contra hnot
      exact htakes (takes_of_locate hleads hdir hnot)
    rw [hrefused]

theorem write_eq_ok {cut : FileTree} {path : Path} {data : Bytes}
    (h : t.write path data = .ok cut) : t.locate path.dropLast = .ok .directory ∧ t.Free path ∧
      cut = t.put path (.file data) := by
  rw [write] at h
  split at h
  next hdir hfile =>
    cases h
    exact ⟨hdir, .inr ⟨_, hfile⟩, rfl⟩
  next hdir hmissing =>
    cases h
    exact ⟨hdir, .inl hmissing, rfl⟩
  · cases h
  · cases h

def Open (t : FileTree) (path : Path) : Prop :=
  ∀ p, p <+: path → ∀ data, t.find? p ≠ some (.file data)

inductive Grows (way : Path) : FileTree → FileTree → Prop
  | refl (t : FileTree) : Grows way t t
  | make {t t' : FileTree} {dir : Path} {name : String} : dir ++ [name] <+: way →
      t.find? dir = some .directory → t.find? (dir ++ [name]) = none →
      Grows way (t.put (dir ++ [name]) .directory) t' → Grows way t t'

theorem Rooted.isOpen (h : t.Rooted) {path : Path} (htakes : Takes path)
    (hrefused : t.locate path ≠ .error .refused)
    (hfile : ∀ data, t.locate path ≠ .ok (.file data)) : t.Open path := by
  rintro p ⟨rest, rfl⟩ data hdata
  rcases List.eq_nil_or_concat' p with rfl | ⟨dir, name, rfl⟩
  · cases hdata
  · have hleads := h.leads (rooted_iff.mp h dir name (by rw [hdata]; rfl))
    rw [List.append_assoc, List.singleton_append] at htakes hrefused hfile
    rw [locate_below hleads htakes] at hrefused hfile
    cases rest with
    | nil => exact hfile data (by rw [locateFrom, hdata])
    | cons next rest => exact hrefused (by rw [locateFrom, hdata])

theorem makeDirectoriesFrom_open {done path : Path} (hleads : t.Leads done)
    (htakes : Takes (done ++ path)) (hopen : t.Open (done ++ path)) :
    ∃ t', t.makeDirectoriesFrom done path = .ok t' := by
  induction path generalizing t done with
  | nil => exact ⟨t, rfl⟩
  | cons name path ih =>
      have hsplit : done ++ name :: path = done ++ [name] ++ path := by simp
      rw [hsplit] at htakes hopen
      have hlocate := locate_child hleads htakes.left
      rw [makeDirectoriesFrom]
      cases hnext : t.find? (done ++ [name]) with
      | none =>
          have hopen' : (t.put (done ++ [name]) .directory).Open (done ++ [name] ++ path) := by
            intro p hp data
            by_cases hpath : done ++ [name] = p
            · rw [← hpath, t.find?_put_self .directory (by simp)]
              simp
            · rw [t.find?_put_of_ne .directory hpath]
              exact hopen p hp data
          simp only [hlocate, hnext, ← put_new .directory (by simp) hnext]
          exact ih (leads_put_directory hleads name) htakes hopen'
      | some node =>
          cases node with
          | file data => exact absurd hnext (hopen _ (List.prefix_append _ path) data)
          | directory =>
              simp only [hlocate, hnext]
              exact ih (hleads.child hnext) htakes hopen

theorem Grows.mono {way path : Path} (h : Grows path t t') (hpath : path <+: way) :
    Grows way t t' := by
  induction h with
  | refl t => exact .refl t
  | make hplace hdir hnew _ ih => exact .make (hplace.trans hpath) hdir hnew ih

theorem grows_of_makeDirectoriesFrom {done path : Path}
    (h : t.makeDirectoriesFrom done path = .ok t') (hleads : t.Leads done) (hdone : Takes done) :
    Grows (done ++ path) t t' := by
  induction path generalizing t done with
  | nil =>
      cases h
      exact .refl _
  | cons name path ih =>
      have hsplit : done ++ name :: path = done ++ [name] ++ path := by simp
      rw [hsplit]
      obtain ⟨htakes, ⟨hname, h⟩ | ⟨hname, h⟩⟩ := makeDirectoriesFrom_cons h hleads hdone
      · exact ih h (hleads.child hname) htakes
      · exact .make (List.prefix_append _ path) (hleads done List.prefix_rfl) hname
          (ih h (leads_put_directory hleads name) htakes)

theorem makeDirectories_open {path : Path} (htakes : Takes path) (hopen : t.Open path) :
    ∃ t', t.makeDirectories path = .ok t' :=
  makeDirectoriesFrom_open t.leads_root htakes hopen

theorem of_makeDirectories {path : Path} (h : t.makeDirectories path = .ok t') :
    t'.Leads path ∧ Takes path ∧ Grows path t t' := by
  have hroot : Takes [] := by decide
  obtain ⟨hleads, htakes, -⟩ := of_makeDirectoriesFrom h t.leads_root hroot
  exact ⟨hleads, htakes, grows_of_makeDirectoriesFrom h t.leads_root hroot⟩

theorem Grows.rooted {way : Path} (h : Grows way t t') (hrooted : t.Rooted) : t'.Rooted := by
  induction h with
  | refl t => exact hrooted
  | make _ hdir hnew _ ih => exact ih (hrooted.put .directory hdir (by rw [hnew]; simp))

theorem Grows.find?_eq {way path : Path} (h : Grows way t t') (hpath : ¬ path <+: way) :
    t'.find? path = t.find? path := by
  induction h with
  | refl t => rfl
  | make hplace _ _ _ ih =>
      rw [ih, find?_put_of_ne]
      rintro rfl
      exact hpath hplace

theorem Grows.names_eq {way dir : Path} (h : Grows way t t')
    (hdir : ∀ name, ¬ dir ++ [name] <+: way) : t'.names dir = t.names dir := by
  induction h with
  | refl t => rfl
  | make hplace _ _ _ ih =>
      rw [ih, names_put_other]
      rintro rfl
      exact hdir _ hplace

theorem Rooted.locate_put (h : t.Rooted) {dir path : Path} {name : String}
    (hdir : t.find? dir = some .directory) (hnew : t.find? (dir ++ [name]) = none)
    (htakes : Takes path) (hpath : path ≠ dir ++ [name]) :
    (t.put (dir ++ [name]) .directory).locate path = t.locate path := by
  by_cases hway : dir ++ [name] <+: path
  · obtain ⟨rest, rfl⟩ := hway
    cases rest with
    | nil => exact absurd (List.append_nil _) hpath
    | cons next rest =>
        have hleads := h.leads hdir
        have hempty :
            (t.put (dir ++ [name]) .directory).find? (dir ++ [name] ++ [next]) = none := by
          rw [find?_put_of_ne _ _ (by simp)]
          exact h.child_none (by rw [hnew]; simp) next
        rw [locate_missing (leads_put_directory hleads name) hempty htakes]
        rw [List.append_assoc] at htakes ⊢
        exact (locate_missing hleads hnew htakes).symm
  · refine locate_congr fun p hp => find?_put_of_ne _ _ ?_
    rintro rfl
    exact hway hp

theorem Grows.leads {way dir : Path} (h : Grows way t t') (hleads : t.Leads dir) :
    t'.Leads dir := by
  induction h with
  | refl t => exact hleads
  | make _ _ hnew _ ih =>
      refine ih fun p hp => ?_
      rw [find?_put_of_ne _ _ fun heq => ?_]
      · exact hleads p hp
      · rw [heq, hleads p hp] at hnew
        cases hnew

theorem Grows.locate {way path : Path} (h : Grows way t t') (hrooted : t.Rooted)
    (htakes : Takes path) : t'.locate path = t.locate path ∨
      path <+: way ∧ t.locate path = .error .notFound ∧ t'.locate path = .ok .directory := by
  induction h with
  | refl t => exact .inl rfl
  | @make t t' dir name hplace hdir hnew hgrows ih =>
      have hput := hrooted.put .directory hdir (by rw [hnew]; simp)
      by_cases hpath : path = dir ++ [name]
      · subst hpath
        have hleads := hrooted.leads hdir
        refine .inr ⟨hplace, ?_, ?_⟩
        · rw [locate_child hleads htakes, hnew]
        · exact locate_leads (hgrows.leads (leads_put_directory hleads name)) htakes
      · rw [← hrooted.locate_put hdir hnew htakes hpath]
        exact ih hput

end JoseTokens.FileTree
