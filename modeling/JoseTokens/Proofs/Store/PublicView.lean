import JoseTokens.Proofs.Key.Halves
import JoseTokens.Proofs.Key.PublicView
import JoseTokens.Proofs.Store.SaveSteps

namespace JoseTokens

namespace FileTree

section

variable {f : Bytes → Bytes} {t t' : FileTree}

def Node.mapData (f : Bytes → Bytes) : Node → Node
  | .file data => .file (f data)
  | .directory => .directory

def mapData (f : Bytes → Bytes) (t : FileTree) : FileTree :=
  ⟨t.nodes.map fun (path, node) => (path, node.mapData f)⟩

theorem find?_mapData (f : Bytes → Bytes) (t : FileTree) (path : Path) :
    (t.mapData f).find? path = (t.find? path).map (Node.mapData f) := by
  rw [find?, find?]
  split
  · rfl
  · rw [mapData, List.find?_map, Option.map_map, Option.map_map]
    rfl

theorem locateFrom_mapData (f : Bytes → Bytes) (t : FileTree) (done path : Path) :
    (t.mapData f).locateFrom done path = (t.locateFrom done path).map (Node.mapData f) := by
  induction path generalizing done with
  | nil =>
      rw [locateFrom, locateFrom, find?_mapData]
      cases t.find? done <;> rfl
  | cons name path ih =>
      rw [locateFrom, locateFrom, find?_mapData]
      cases t.find? done with
      | none => rfl
      | some node =>
          cases node with
          | file data => rfl
          | directory =>
              simp only [Option.map_some, Node.mapData]
              split
              · rfl
              · exact ih (done ++ [name])

theorem locate_mapData (f : Bytes → Bytes) (t : FileTree) (path : Path) :
    (t.mapData f).locate path = (t.locate path).map (Node.mapData f) := by
  rw [locate, locate, locateFrom_mapData]
  split <;> rfl

theorem read_mapData (f : Bytes → Bytes) (t : FileTree) (path : Path) :
    (t.mapData f).read path = (t.read path).map f := by
  rw [read, read, locate_mapData]
  cases t.locate path with
  | error fault => rfl
  | ok node => cases node <;> rfl

theorem entries_mapData (f : Bytes → Bytes) (t : FileTree) (path : Path) :
    (t.mapData f).entries path = t.entries path := by
  rw [entries, entries, locate_mapData]
  cases t.locate path with
  | error fault => rfl
  | ok node =>
      cases node with
      | file data => rfl
      | directory =>
          simp only [Except.map, Node.mapData, mapData, List.filterMap_map]
          rfl

theorem set_mapData (f : Bytes → Bytes) (path : Path) (node : Node) (nodes : List (Path × Node)) :
    set path (node.mapData f) (nodes.map fun (path, node) => (path, node.mapData f)) =
      (set path node nodes).map fun (path, node) => (path, node.mapData f) := by
  induction nodes with
  | nil => rfl
  | cons entry nodes ih =>
      obtain ⟨p, old⟩ := entry
      rw [List.map_cons, set, set]
      split
      · rfl
      · rw [ih, List.map_cons]

theorem makeDirectoriesFrom_mapData (f : Bytes → Bytes) (t : FileTree) (done path : Path) :
    (t.mapData f).makeDirectoriesFrom done path =
      (t.makeDirectoriesFrom done path).map (mapData f) := by
  induction path generalizing t done with
  | nil => rfl
  | cons name path ih =>
      rw [makeDirectoriesFrom, makeDirectoriesFrom, locate_mapData]
      cases t.locate (done ++ [name]) with
      | error fault =>
          cases fault with
          | refused => rfl
          | notFound =>
              rw [← ih]
              simp only [Except.map, mapData, List.map_append]
              rfl
      | ok node =>
          cases node with
          | file data => rfl
          | directory => exact ih t (done ++ [name])

theorem write_mapData (f : Bytes → Bytes) (t : FileTree) (path : Path) (data : Bytes) :
    (t.mapData f).write path (f data) = (t.write path data).map (mapData f) := by
  have hset : set path (.file (f data)) (t.mapData f).nodes = _ :=
    set_mapData f path (.file data) t.nodes
  rw [write, write, locate_mapData, locate_mapData, hset]
  cases t.locate path.dropLast with
  | error fault => cases fault <;> rfl
  | ok parent =>
      cases parent with
      | file old => rfl
      | directory =>
          cases t.locate path with
          | error fault => cases fault <;> rfl
          | ok node => cases node <;> rfl

theorem moved_mapData (f : Bytes → Bytes) (t : FileTree) (source target : Path) (data : Bytes) :
    rename.moved (t.mapData f) source target (f data) =
      (rename.moved t source target data).mapData f := by
  have hset : set target (.file (f data)) (t.mapData f).nodes = _ :=
    set_mapData f target (.file data) t.nodes
  rw [rename.moved, rename.moved, hset, mapData, List.filter_map]
  rfl

theorem rename_mapData (f : Bytes → Bytes) (t : FileTree) (source target : Path) :
    (t.mapData f).rename source target = (t.rename source target).map (mapData f) := by
  rw [rename, rename, locate_mapData, locate_mapData]
  cases t.locate source with
  | error fault => cases fault <;> rfl
  | ok node =>
      cases node with
      | directory => rfl
      | file data =>
          cases t.locate target with
          | error fault =>
              cases fault with
              | refused => rfl
              | notFound => exact congrArg Except.ok (moved_mapData f t source target data)
          | ok node =>
              cases node with
              | directory => rfl
              | file old => exact congrArg Except.ok (moved_mapData f t source target data)

end

end FileTree

namespace FileStore

open FileTree

theorem steps_map {g : FileTree → FileTree}
    {plain changed : List (FileTree → Except Fault FileTree)}
    (h : List.Forall₂ (fun step step' => ∀ t, step' (g t) = (step t).map g) plain changed)
    (t : FileTree) : steps changed (g t) = ((steps plain t).1, g (steps plain t).2) := by
  -- Both runs stop at the same step, so the trees that they leave correspond after a failure too.
  induction h generalizing t with
  | nil => rfl
  | @cons step step' plain changed hstep _ ih =>
      rw [steps, steps, hstep]
      cases step t with
      | error fault => rfl
      | ok next => exact ih next

theorem steps_mapData (f : Bytes → Bytes) (path : Path) (data : Bytes) (t : FileTree) :
    steps (saveSteps path (f data)) (t.mapData f) =
      ((steps (saveSteps path data) t).1, (steps (saveSteps path data) t).2.mapData f) := by
  refine steps_map (.cons (fun t => ?_) (.cons (fun t => ?_) (.cons (fun t => ?_) .nil))) t
  · exact makeDirectoriesFrom_mapData f t [] path.dropLast
  · exact write_mapData f t (temporary path) data
  · exact rename_mapData f t (temporary path) path

def veiledData (data : Bytes) : Bytes :=
  match parse [] data with
  | .ok c => render c.veiled
  | .error _ => data

theorem veiledData_render (c : Container) : veiledData (render c) = render c.veiled := by
  rw [veiledData, parse_render]

theorem parse_eq_ok_iff {path : Path} {data : Bytes} {c : Container} :
    parse path data = .ok c ↔ parse [] data = .ok c := by
  rw [parse, parse]
  cases Json.document (record.read (0, [])) data with
  | error e => simp
  | ok file =>
      obtain ⟨version, keys⟩ := file
      by_cases hversion : version = fileVersion <;> simp [hversion]

theorem parse_veiledData (path : Path) (data : Bytes) :
    parse path (veiledData data) = (parse path data).map Container.veiled := by
  rw [veiledData]
  cases hparse : parse [] data with
  | ok c => simp only [parse_render, parse_eq_ok_iff.mpr hparse, Except.map]
  | error e =>
      cases hpath : parse path data with
      | error e' => rfl
      | ok c =>
          rw [parse_eq_ok_iff.mp hpath] at hparse
          cases hparse

def veiled (s : FileStore) : FileStore :=
  ⟨s.tree.mapData veiledData, s.base⟩

theorem load_veiled (s : FileStore) (path : Path) :
    s.veiled.load path = (s.load path).map (Option.map Container.veiled) := by
  rw [load, load, veiled, read_mapData]
  cases s.tree.read path with
  | error fault => cases fault <;> rfl
  | ok data =>
      simp only [Except.map, parse_veiledData]
      cases parse path data <;> rfl

section

variable (s : FileStore) (r : Reference) (key : Jwk)

theorem get_veiled {o : StoreOptions} (ho : o.publicOnly = true) :
    s.veiled.get r o = s.get r o := by
  have hpath : s.veiled.keyPath r = s.keyPath r := rfl
  rw [FileStore.get, FileStore.get, hpath]
  cases s.keyPath r with
  | error e => rfl
  | ok path =>
      simp only [bind, Except.bind, load_veiled]
      cases s.load path with
      | error e => rfl
      | ok old =>
          cases old with
          | none => rfl
          | some c => exact StoreOptions.apply_veiled ho c

theorem listFiles_veiled (directory : Path) (o : StoreOptions) (files : List String) :
    s.veiled.listFiles directory o files = s.listFiles directory o files := by
  induction files with
  | nil => rfl
  | cons file files ih =>
      rw [listFiles, listFiles, ih]
      cases nameOf? file with
      | none => rfl
      | some name =>
          simp only [bind, Except.bind, load_veiled]
          cases s.load (directory ++ [file]) with
          | error e => rfl
          | ok old =>
              cases old with
              | none => rfl
              | some c => simp only [Except.map, Option.map_some, StoreOptions.listing_veiled]

theorem list_veiled (storage : StorageClass) (o : StoreOptions) :
    s.veiled.list storage o = s.list storage o := by
  have hentries : s.veiled.tree.entries (s.veiled.classPath storage) =
      s.tree.entries (s.classPath storage) := entries_mapData veiledData s.tree _
  rw [FileStore.list, FileStore.list, hentries]
  simp only [listFiles_veiled]
  rfl

theorem added_veiled (old : Option Container) :
    (added old key).veiled = added (old.map Container.veiled) key.veiled := by
  cases old <;> rfl

theorem save_veiled :
    s.veiled.save r key.veiled = ((s.save r key).1, (s.save r key).2.veiled) := by
  by_cases hname : isFileName r.name = true
  · have hload := s.load_veiled (s.filePath r.storage (r.name ++ ending))
    cases hold : s.load (s.filePath r.storage (r.name ++ ending)) with
    | error e =>
        rw [hold] at hload
        rw [save_unloaded hname hold, save_unloaded (s := s.veiled) hname hload]
    | ok old =>
        rw [hold] at hload
        have hsteps := steps_mapData veiledData (s.filePath r.storage (r.name ++ ending))
          (render (added old key)) s.tree
        rw [veiledData_render, added_veiled] at hsteps
        rw [save_of_steps hname hold rfl, save_of_steps (s := s.veiled) hname hload hsteps]
        rfl
  · rw [save_unnamed hname, save_unnamed hname]

end

end FileStore

namespace MemoryStore

def veiled (s : MemoryStore) : MemoryStore :=
  ⟨s.entries.map fun (slot, c) => (slot, c.veiled)⟩

theorem find?_veiled (s : MemoryStore) (r : Reference) :
    s.veiled.find? r = (s.find? r).map Container.veiled := by
  rw [find?, find?, veiled, List.find?_map, Option.map_map, Option.map_map]
  rfl

theorem get_veiled {o : StoreOptions} (ho : o.publicOnly = true) (s : MemoryStore) (r : Reference) :
    s.veiled.get r o = s.get r o := by
  rw [MemoryStore.get, MemoryStore.get, find?_veiled]
  cases s.find? r with
  | none => rfl
  | some c => exact StoreOptions.apply_veiled ho c

theorem list_veiled (s : MemoryStore) (storage : StorageClass) (o : StoreOptions) :
    s.veiled.list storage o = s.list storage o := by
  rw [MemoryStore.list, MemoryStore.list, veiled, List.filterMap_map]
  refine congrArg Listing.sorted (List.filterMap_congr fun entry _ => ?_)
  simp only [Function.comp_apply, StoreOptions.listing_veiled]

theorem saveIn_veiled (slot : StorageClass × String) (key : Jwk)
    (entries : List ((StorageClass × String) × Container)) :
    saveIn slot key.veiled (entries.map fun (slot, c) => (slot, c.veiled)) =
      (saveIn slot key entries).map fun (slot, c) => (slot, c.veiled) := by
  induction entries with
  | nil => rfl
  | cons entry entries ih =>
      obtain ⟨other, c⟩ := entry
      rw [List.map_cons, saveIn, saveIn]
      split
      · rfl
      · rw [ih, List.map_cons]

theorem save_veiled (s : MemoryStore) (r : Reference) (key : Jwk) :
    s.veiled.save r key.veiled = (s.save r key).veiled :=
  congrArg MemoryStore.mk (saveIn_veiled (slot r) key s.entries)

end MemoryStore

namespace StoreCall

inductive SameShown : StoreCall → StoreCall → Prop
  | save (r : Reference) {key key' : Jwk} (h : key.SameShown key') :
      SameShown (.save r key) (.save r key')
  | get (r : Reference) (o : StoreOptions) : SameShown (.get r o) (.get r o)
  | list (storage : StorageClass) (o : StoreOptions) : SameShown (.list storage o) (.list storage o)

def IsPublic : StoreCall → Prop
  | .save _ _ => True
  | .get _ o => o.publicOnly = true
  | .list _ _ => True

def veiled : StoreCall → StoreCall
  | .save r key => .save r key.veiled
  | .get r o => .get r o
  | .list storage o => .list storage o

theorem SameShown.veiled_eq {call call' : StoreCall} (h : call.SameShown call') :
    call.veiled = call'.veiled := by
  cases h with
  | save r h => exact congrArg (StoreCall.save r) (Jwk.sameShown_iff.mp h)
  | get r o => rfl
  | list storage o => rfl

theorem SameShown.isPublic {call call' : StoreCall} (h : call.SameShown call')
    (hpublic : call.IsPublic) : call'.IsPublic := by
  cases h with
  | save r h => trivial
  | get r o => exact hpublic
  | list storage o => trivial

end StoreCall

namespace KeyStore

def veiled : KeyStore → KeyStore
  | .memory s => .memory s.veiled
  | .file s => .file s.veiled

theorem get_veiled {o : StoreOptions} (ho : o.publicOnly = true) (s : KeyStore) (r : Reference) :
    s.veiled.get r o = s.get r o := by
  cases s with
  | memory s => exact MemoryStore.get_veiled ho s r
  | file s => exact FileStore.get_veiled s r ho

theorem list_veiled (s : KeyStore) (storage : StorageClass) (o : StoreOptions) :
    s.veiled.list storage o = s.list storage o := by
  cases s with
  | memory s => exact congrArg Except.ok (s.list_veiled storage o)
  | file s => exact s.list_veiled storage o

theorem save_veiled (s : KeyStore) (r : Reference) (key : Jwk) :
    s.veiled.save r key.veiled = ((s.save r key).1, (s.save r key).2.veiled) := by
  cases s with
  | memory s =>
      rw [veiled, KeyStore.save, MemoryStore.save_veiled]
      rfl
  | file s =>
      rw [veiled, KeyStore.save, FileStore.save_veiled]
      rfl

theorem perform_veiled (s : KeyStore) (call : StoreCall) :
    (s.veiled.perform call.veiled).2 = (s.perform call).2.veiled := by
  cases call with
  | save r key =>
      rw [StoreCall.veiled, perform, save_veiled]
      rfl
  | get r o => rfl
  | list storage o => rfl

theorem answer_veiled (s : KeyStore) {call : StoreCall} (h : call.IsPublic) :
    (s.veiled.perform call.veiled).1 = (s.perform call).1 := by
  cases call with
  | save r key =>
      rw [StoreCall.veiled, perform, save_veiled]
      rfl
  | get r o =>
      rw [StoreCall.veiled, perform, get_veiled h]
      rfl
  | list storage o =>
      rw [StoreCall.veiled, perform, list_veiled]
      rfl

theorem after_veiled (s : KeyStore) (calls : List StoreCall) :
    s.veiled.after (calls.map StoreCall.veiled) = (s.after calls).veiled := by
  induction calls generalizing s with
  | nil => rfl
  | cons call calls ih => rw [List.map_cons, after, after, perform_veiled, ih]

theorem answers_veiled (s : KeyStore) {calls : List StoreCall}
    (h : ∀ call ∈ calls, call.IsPublic) :
    s.veiled.answers (calls.map StoreCall.veiled) = s.answers calls := by
  induction calls generalizing s with
  | nil => rfl
  | cons call calls ih =>
      obtain ⟨hcall, hcalls⟩ := List.forall_mem_cons.mp h
      rw [List.map_cons, answers, answers, answer_veiled s hcall, perform_veiled, ih _ hcalls]

section

variable {calls calls' : List StoreCall} (h : List.Forall₂ StoreCall.SameShown calls calls')

include h

theorem map_veiled_eq : calls.map StoreCall.veiled = calls'.map StoreCall.veiled :=
  forall₂_map_eq_iff.mp (h.imp fun _ _ => StoreCall.SameShown.veiled_eq)

theorem get_sameShown (s : KeyStore) (r : Reference) {o : StoreOptions} (ho : o.publicOnly = true) :
    (s.after calls).get r o = (s.after calls').get r o := by
  calc (s.after calls).get r o
      = (s.after calls).veiled.get r o := (get_veiled ho _ r).symm
    _ = (s.after calls').veiled.get r o := by
        rw [← after_veiled, ← after_veiled, map_veiled_eq h]
    _ = (s.after calls').get r o := get_veiled ho _ r

theorem answers_sameShown (s : KeyStore) (hpublic : ∀ call ∈ calls, call.IsPublic) :
    s.answers calls = s.answers calls' := by
  have hpublic' : ∀ call ∈ calls', call.IsPublic := by
    intro call' hcall'
    obtain ⟨call, hcall, hsame⟩ := forall₂_mem_right h hcall'
    exact hsame.isPublic (hpublic call hcall)
  rw [← answers_veiled s hpublic, ← answers_veiled s hpublic', map_veiled_eq h]

end

theorem public_views_same :
    (∀ a b : Jwk, a.SameShown b → a.isSymmetric = false →
      (∃ shown members, a.toPublic = .ok shown ∧ b.toPublic = .ok shown ∧
        shown.text = (Json.object members).compact ∧
        ∀ name ∈ Jwk.secretNames, name ∉ members.map (·.1)) ∧
      a.thumbprint = b.thumbprint ∧ a.description = b.description) ∧
    (∀ (labels : Labels) (k k' : Bytes), k.length = k'.length →
      (⟨labels, .oct k⟩ : Jwk).description = (⟨labels, .oct k'⟩ : Jwk).description) ∧
    (∀ c c' : Container, c.SameShown c' → c.publicOnly = c'.publicOnly) ∧
    ∀ (s : KeyStore) (calls calls' : List StoreCall),
      List.Forall₂ StoreCall.SameShown calls calls' →
        (∀ r o, o.publicOnly = true → (s.after calls).get r o = (s.after calls').get r o) ∧
        ((∀ call ∈ calls, call.IsPublic) → s.answers calls = s.answers calls') := by
  refine ⟨?_, fun labels k k' => Jwk.description_oct labels,
    fun _ _ => Container.SameShown.publicOnly_eq, ?_⟩
  · intro a b h hpair
    obtain ⟨shown, members, hpublic, htext, hnames⟩ := Jwk.exists_public hpair
    exact ⟨⟨shown, members, hpublic, h.toPublic_eq ▸ hpublic, htext, hnames⟩, h.thumbprint_eq,
      h.description_eq⟩
  · intro s calls calls' h
    exact ⟨fun r o ho => get_sameShown h s r ho, answers_sameShown h s⟩

def scalarCalls (d : Nat) : List StoreCall :=
  [.save ⟨"a", .key, none⟩ (Software.besideGenerator d), .list .key {},
    .get ⟨"a", .key, none⟩ { publicOnly := true }]

def emptyFiles : KeyStore :=
  .file ⟨⟨[(["keys"], .directory)]⟩, ["keys"]⟩

theorem public_views_same_scalars :
    Software.besideGenerator 1 ≠ Software.besideGenerator 2 ∧
      (⟨{}, .oct [1, 2]⟩ : Jwk).description = (⟨{}, .oct [3, 4]⟩ : Jwk).description ∧
      (Container.mk (Software.besideGenerator 1) []).publicOnly =
        (Container.mk (Software.besideGenerator 2) []).publicOnly ∧
      emptyFiles.answers (scalarCalls 1) = emptyFiles.answers (scalarCalls 2) ∧
      ∃ shown, (Software.besideGenerator 2).toPublic = .ok shown ∧
        ((memory {}).after (scalarCalls 2)).get ⟨"a", .key, none⟩ { publicOnly := true } =
          .ok ⟨shown, []⟩ := by
  obtain ⟨hkeys, hsecrets, hversions, hhistories⟩ := public_views_same
  have hsame : (Software.besideGenerator 1).SameShown (Software.besideGenerator 2) :=
    ⟨rfl, rfl, rfl⟩
  have hcalls : List.Forall₂ StoreCall.SameShown (scalarCalls 1) (scalarCalls 2) :=
    .cons (.save _ hsame) (.cons (.list _ _) (.cons (.get _ _) .nil))
  have hpublic : ∀ call ∈ scalarCalls 1, call.IsPublic := by
    simp [scalarCalls, StoreCall.IsPublic]
  obtain ⟨⟨shown, -, hleft, hright, -⟩, -⟩ := hkeys _ _ hsame rfl
  have hget := (hhistories (memory {}) _ _ hcalls).1 ⟨"a", .key, none⟩ { publicOnly := true } rfl
  have hfound : ((memory {}).after (scalarCalls 1)).get ⟨"a", .key, none⟩ { publicOnly := true } =
      .ok ⟨shown, []⟩ := by
    cases hleft
    rfl
  exact ⟨by decide +kernel, hsecrets {} _ _ rfl, hversions _ _ (.cons hsame .nil),
    (hhistories emptyFiles _ _ hcalls).2 hpublic, shown, hright, hget ▸ hfound⟩

end KeyStore

end JoseTokens
