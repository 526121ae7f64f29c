import JoseTokens.Proofs.Store.Newest

namespace JoseTokens

namespace FileTree

open Entries

theorem find?_snoc (t : FileTree) (path : Path) (node : Node) {p : Path} (hp : p ≠ []) :
    find? ⟨t.nodes ++ [(path, node)]⟩ p = (t.find? p).or (lookUp [(path, node)] p) := by
  rw [find?_eq _ hp, find?_eq _ hp, lookUp, lookUp, lookUp, List.find?_append, Option.map_or]

end FileTree

structure Footprint where
  files : List Path := []
  directories : List Path := []
  deriving DecidableEq, Repr

namespace Footprint

open FileTree

def Reaches (f : Footprint) (p : Path) : Prop :=
  ∃ q ∈ f.files ++ f.directories, p <+: q

def Agree (f : Footprint) (t t' : FileTree) : Prop :=
  ∀ p, f.Reaches p → t'.find? p = t.find? p

def Spares (f : Footprint) (t u : FileTree) : Prop :=
  ∀ p, p ∉ f.files → u.find? p = t.find? p ∨
    (∃ dir ∈ f.directories, p <+: dir) ∧ t.find? p = none ∧ u.find? p = some .directory

inductive Matches (f : Footprint) : Except Fault FileTree → Except Fault FileTree → Prop
  | ok {t t' : FileTree} : f.Agree t t' → Matches f (.ok t) (.ok t')
  | error (fault : Fault) : Matches f (.error fault) (.error fault)

structure Bounds (f : Footprint) (step : FileTree → Except Fault FileTree) : Prop where
  reads : ∀ t t', f.Agree t t' → f.Matches (step t) (step t')
  writes : ∀ t u, step t = .ok u → f.Spares t u

def union (footprints : List Footprint) : Footprint where
  files := footprints.flatMap files
  directories := footprints.flatMap directories

variable {f g : Footprint} {t t' u v : FileTree}

theorem reaches_file {p : Path} (h : p ∈ f.files) : f.Reaches p :=
  ⟨p, List.mem_append_left _ h, List.prefix_rfl⟩

theorem reaches_directory {p : Path} (h : p ∈ f.directories) : f.Reaches p :=
  ⟨p, List.mem_append_right _ h, List.prefix_rfl⟩

theorem Reaches.left {p q : Path} (h : f.Reaches q) (hp : p <+: q) : f.Reaches p := by
  obtain ⟨place, hplace, hq⟩ := h
  exact ⟨place, hplace, hp.trans hq⟩

theorem Agree.locate (h : f.Agree t t') {path : Path} (hpath : f.Reaches path) :
    t'.locate path = t.locate path :=
  locate_congr fun p hp => h p (hpath.left hp)

theorem Agree.put (h : f.Agree t t') (path : Path) (node : Node) :
    f.Agree (t.put path node) (t'.put path node) := by
  intro p hp
  by_cases hpath : path = p
  · subst hpath
    by_cases hroot : path = []
    · rw [hroot]
      rfl
    · rw [find?_put_self _ _ hroot, find?_put_self _ _ hroot]
  · rw [find?_put_of_ne _ _ hpath, find?_put_of_ne _ _ hpath, h p hp]

theorem Agree.without (h : f.Agree t t') (path : Path) :
    f.Agree (t.without path) (t'.without path) := by
  intro p hp
  by_cases hroot : p = []
  · rw [hroot]
    rfl
  · rw [find?_without _ _ hroot, find?_without _ _ hroot, h p hp]

theorem Agree.snoc (h : f.Agree t t') (path : Path) (node : Node) :
    f.Agree ⟨t.nodes ++ [(path, node)]⟩ ⟨t'.nodes ++ [(path, node)]⟩ := by
  intro p hp
  by_cases hroot : p = []
  · rw [hroot]
    rfl
  · rw [find?_snoc _ _ _ hroot, find?_snoc _ _ _ hroot, h p hp]

theorem Spares.refl (f : Footprint) (t : FileTree) : f.Spares t t :=
  fun _ _ => .inl rfl

theorem Spares.trans (h : f.Spares t u) (h' : f.Spares u v) : f.Spares t v := by
  intro p hp
  rcases h' p hp with hsame' | ⟨hway, hnone, hmade⟩
  · rw [hsame']
    exact h p hp
  · rcases h p hp with hsame | ⟨-, -, hthere⟩
    · exact .inr ⟨hway, hsame ▸ hnone, hmade⟩
    · cases hnone.symm.trans hthere

theorem Spares.mono (h : f.Spares t u) (hfiles : f.files ⊆ g.files)
    (hdirectories : f.directories ⊆ g.directories) : g.Spares t u := by
  intro p hp
  refine (h p fun hmem => hp (hfiles hmem)).imp_right ?_
  rintro ⟨⟨dir, hdir, hway⟩, hmade⟩
  exact ⟨⟨dir, hdirectories hdir, hway⟩, hmade⟩

theorem Spares.head (h : f.Spares t u) (rest : List Footprint) : (union (f :: rest)).Spares t u :=
  h.mono (List.subset_append_left _ _) (List.subset_append_left _ _)

theorem Spares.tail {rest : List Footprint} (h : (union rest).Spares t u) (f : Footprint) :
    (union (f :: rest)).Spares t u :=
  h.mono (List.subset_append_right _ _) (List.subset_append_right _ _)

theorem spares_put {path : Path} (hpath : path ∈ f.files) (node : Node) :
    f.Spares t (t.put path node) := by
  intro p hp
  refine .inl (find?_put_of_ne _ _ ?_)
  rintro rfl
  exact hp hpath

theorem spares_without {path : Path} (hpath : path ∈ f.files) : f.Spares t (t.without path) := by
  intro p hp
  refine .inl (find?_without_of_ne _ ?_)
  rintro rfl
  exact hp hpath

theorem spares_of_grows {way : Path} (h : Grows way t u) (hway : way ∈ f.directories) :
    f.Spares t u := by
  induction h with
  | refl t => exact .refl f t
  | @make t u dir name hplace _ hnew _ ih =>
      -- What is made was missing, which is all that may happen on the way.
      refine Spares.trans (fun p _ => ?_) ih
      by_cases hp : dir ++ [name] = p
      · subst hp
        exact .inr ⟨⟨way, hway, hplace⟩, hnew, find?_put_self _ _ (by simp)⟩
      · exact .inl (find?_put_of_ne _ _ hp)

theorem matches_makeDirectoriesFrom (hagree : f.Agree t t') {done path : Path}
    (hpath : f.Reaches (done ++ path)) :
    f.Matches (t.makeDirectoriesFrom done path) (t'.makeDirectoriesFrom done path) := by
  induction path generalizing t t' done with
  | nil => exact .ok hagree
  | cons name path ih =>
      have hsplit : done ++ name :: path = done ++ [name] ++ path := by simp
      rw [hsplit] at hpath
      rw [makeDirectoriesFrom, makeDirectoriesFrom,
        hagree.locate (hpath.left (List.prefix_append _ path))]
      cases t.locate (done ++ [name]) with
      | ok node =>
          cases node with
          | file data => exact .error .refused
          | directory => exact ih hagree hpath
      | error fault =>
          cases fault with
          | notFound => exact ih (hagree.snoc _ _) hpath
          | refused => exact .error .refused

theorem bounds_makeDirectories {dir : Path} (hdir : dir ∈ f.directories) :
    f.Bounds fun t => t.makeDirectories dir where
  reads := fun _ _ hagree => matches_makeDirectoriesFrom hagree (reaches_directory hdir)
  writes := fun _ _ h => spares_of_grows (of_makeDirectories h).2.2 hdir

theorem bounds_write {path : Path} (hpath : path ∈ f.files) (data : Bytes) :
    f.Bounds fun t => t.write path data where
  reads := fun t t' hagree => by
    have hreaches := reaches_file hpath
    rw [FileTree.write, FileTree.write, hagree.locate hreaches,
      hagree.locate (hreaches.left (List.dropLast_prefix path))]
    cases t.locate path.dropLast with
    | error fault => cases fault <;> exact .error _
    | ok parent =>
        cases parent with
        | file old => exact .error .refused
        | directory =>
            cases t.locate path with
            | error fault =>
                cases fault with
                | notFound => exact .ok (hagree.put path (.file data))
                | refused => exact .error .refused
            | ok node =>
                cases node with
                | file old => exact .ok (hagree.put path (.file data))
                | directory => exact .error .refused
  writes := fun t u h => by
    obtain ⟨-, -, rfl⟩ := write_eq_ok h
    exact spares_put hpath _

theorem bounds_rename {source target : Path} (hsource : source ∈ f.files)
    (htarget : target ∈ f.files) : f.Bounds fun t => t.rename source target where
  reads := fun t t' hagree => by
    rw [rename, rename, hagree.locate (reaches_file hsource),
      hagree.locate (reaches_file htarget)]
    cases t.locate source with
    | error fault => cases fault <;> exact .error _
    | ok node =>
        cases node with
        | directory => exact .error .refused
        | file data =>
            have hmoved := (hagree.put target (.file data)).without source
            cases t.locate target with
            | error fault =>
                cases fault with
                | notFound => exact .ok hmoved
                | refused => exact .error .refused
            | ok place =>
                cases place with
                | file old => exact .ok hmoved
                | directory => exact .error .refused
  writes := fun t u h => by
    obtain ⟨data, -, rfl⟩ := rename_eq_ok h
    exact (spares_put htarget _).trans (spares_without hsource)

section

open FileStore (steps)

variable {list : List (FileTree → Except Fault FileTree)}

theorem steps_agree (h : ∀ step ∈ list, f.Bounds step) (hagree : f.Agree t t') :
    (steps list t).1 = (steps list t').1 ∧ f.Agree (steps list t).2 (steps list t').2 := by
  induction list generalizing t t' with
  | nil => exact ⟨rfl, hagree⟩
  | cons step rest ih =>
      obtain ⟨hstep, hrest⟩ := List.forall_mem_cons.mp h
      have hmatches := hstep.reads t t' hagree
      rw [steps, steps]
      revert hmatches
      generalize step t = x
      generalize step t' = y
      rintro (hnext | fault)
      · exact ih hrest hnext
      · exact ⟨rfl, hagree⟩

theorem steps_spares (h : ∀ step ∈ list, f.Bounds step) (t : FileTree) :
    f.Spares t (steps list t).2 := by
  induction list generalizing t with
  | nil => exact .refl f t
  | cons step rest ih =>
      obtain ⟨hstep, hrest⟩ := List.forall_mem_cons.mp h
      rw [steps]
      cases hnext : step t with
      | error fault => exact .refl f t
      | ok next => exact (hstep.writes t next hnext).trans (ih hrest next)

end

end Footprint

end JoseTokens
