import JoseTokens.Proofs.Text.Octets
import JoseTokens.Store.KeyStore
import Mathlib.Data.List.Sort

namespace JoseTokens

inductive StoreCall where
  | save (r : Reference) (key : Jwk)
  | get (r : Reference) (o : StoreOptions)
  | list (storage : StorageClass) (o : StoreOptions)
  deriving DecidableEq, Repr

inductive StoreAnswer where
  | saved (result : Except Error Unit)
  | found (versions : Except Error (List Jwk))
  | listed (entries : Except Error (List (String × Listing)))
  deriving Repr

namespace KeyStore

def perform (s : KeyStore) : StoreCall → StoreAnswer × KeyStore
  | .save r key =>
      let (result, s) := s.save r key
      (.saved result, s)
  | .get r o => (.found ((s.get r o).map Container.keys), s)
  | .list storage o => (.listed (s.list storage o), s)

def answers (s : KeyStore) : List StoreCall → List StoreAnswer
  | [] => []
  | call :: calls => (s.perform call).1 :: (s.perform call).2.answers calls

def after (s : KeyStore) : List StoreCall → KeyStore
  | [] => s
  | call :: calls => (s.perform call).2.after calls

end KeyStore

abbrev KeyMap := StorageClass → String → List Jwk

namespace KeyMap

def empty : KeyMap :=
  fun _ _ => []

def push (m : KeyMap) (r : Reference) (key : Jwk) : KeyMap :=
  fun storage name =>
    if storage = r.storage ∧ name = r.name then key :: m storage name else m storage name

def selected (o : StoreOptions) (keys : List Jwk) : List Jwk :=
  if o.latestOnly then keys.take 1 else keys

def publicForm (key : Jwk) : Jwk :=
  { key with material := key.material.publicPart }

def found (m : KeyMap) (r : Reference) (o : StoreOptions) : Except Error (List Jwk) :=
  let keys := selected o (m r.storage r.name)
  if m r.storage r.name = [] then .error (.keyNotFound r)
  else if o.publicOnly then
    if ∃ key ∈ keys, key.isSymmetric = true then .error (.invalidKey .noPublicForm)
    else .ok (keys.map publicForm)
  else .ok keys

def Precedes (a b : String × Listing) : Prop :=
  Listing.before a.1 b.1 = true ∧ a.1 ≠ b.1

structure Listed (m : KeyMap) (storage : StorageClass) (o : StoreOptions)
    (entries : List (String × Listing)) : Prop where
  ordered : entries.Pairwise Precedes
  mem_iff : ∀ name listing, (name, listing) ∈ entries ↔
    ∃ newest older, m storage name = newest :: older ∧
      listing = ⟨(selected o (newest :: older)).filterMap Jwk.kid?, newest.keyType⟩

inductive Step (m : KeyMap) : StoreCall → StoreAnswer → KeyMap → Prop
  | save (r : Reference) (key : Jwk) : Step m (.save r key) (.saved (.ok ())) (m.push r key)
  | get (r : Reference) (o : StoreOptions) : Step m (.get r o) (.found (m.found r o)) m
  | list {storage : StorageClass} {o : StoreOptions} {entries : List (String × Listing)} :
      m.Listed storage o entries → Step m (.list storage o) (.listed (.ok entries)) m

inductive Runs : KeyMap → List StoreCall → List StoreAnswer → KeyMap → Prop
  | nil (m : KeyMap) : Runs m [] [] m
  | cons {m m' m'' : KeyMap} {call : StoreCall} {calls : List StoreCall} {answer : StoreAnswer}
      {answers : List StoreAnswer} :
      m.Step call answer m' → Runs m' calls answers m'' →
      Runs m (call :: calls) (answer :: answers) m''

theorem push_same (m : KeyMap) (r : Reference) (key : Jwk) :
    m.push r key r.storage r.name = key :: m r.storage r.name :=
  if_pos ⟨rfl, rfl⟩

theorem push_other (m : KeyMap) {r : Reference} {storage : StorageClass} {name : String}
    (h : ¬ (storage = r.storage ∧ name = r.name)) (key : Jwk) :
    m.push r key storage name = m storage name :=
  if_neg h

def savedUnder (storage : StorageClass) (name : String) (calls : List StoreCall) : List Jwk :=
  calls.filterMap fun
    | .save r key => if storage = r.storage ∧ name = r.name then some key else none
    | .get _ _ => none
    | .list _ _ => none

def afterCalls (calls : List StoreCall) : KeyMap :=
  fun storage name => (savedUnder storage name calls).reverse

theorem Runs.versions {m m' : KeyMap} {calls : List StoreCall} {answers : List StoreAnswer}
    (h : Runs m calls answers m') (storage : StorageClass) (name : String) :
    m' storage name = (savedUnder storage name calls).reverse ++ m storage name := by
  induction h with
  | nil m => rfl
  | cons hstep _ ih =>
      rw [ih]
      cases hstep with
      | save r key =>
          by_cases hname : storage = r.storage ∧ name = r.name
          · simp [savedUnder, push, hname]
          · simp [savedUnder, push, hname]
      | get r o => rfl
      | list hlisted => rfl

theorem before_antisymm {a b : String} (hab : Listing.before a b = true)
    (hba : Listing.before b a = true) : a = b :=
  Bytes.ofText_injective (List.le_antisymm (of_decide_eq_true hab) (of_decide_eq_true hba))

theorem Listed.functional {m : KeyMap} {storage : StorageClass} {o : StoreOptions}
    {entries others : List (String × Listing)} (h : m.Listed storage o entries)
    (h' : m.Listed storage o others) : entries = others := by
  have : Std.Irrefl Precedes := ⟨fun _ hself => hself.2 rfl⟩
  have : Std.Antisymm Precedes := ⟨fun _ _ hab hba => absurd (before_antisymm hab.1 hba.1) hab.2⟩
  refine h.ordered.eq_of_mem_iff h'.ordered fun (name, listing) => ?_
  rw [h.mem_iff, h'.mem_iff]

theorem Runs.functional {m m' m'' : KeyMap} {calls : List StoreCall}
    {answers others : List StoreAnswer} (h : Runs m calls answers m')
    (h' : Runs m calls others m'') : answers = others := by
  induction h generalizing others with
  | nil m =>
      cases h'
      rfl
  | cons hstep _ ih =>
      cases h' with
      | cons hstep' hruns' =>
          cases hstep with
          | save r key =>
              cases hstep'
              rw [ih hruns']
          | get r o =>
              cases hstep'
              rw [ih hruns']
          | list hlisted =>
              cases hstep' with
              | list hlisted' => rw [hlisted.functional hlisted', ih hruns']

def held : List Jwk → Option Container
  | [] => none
  | newest :: older => some ⟨newest, older⟩

theorem held_eq_some_iff {keys : List Jwk} {c : Container} :
    held keys = some c ↔ keys = c.keys := by
  obtain ⟨newest, older⟩ := c
  cases keys <;> simp [held, Container.keys]

theorem held_eq_none_iff {keys : List Jwk} : held keys = none ↔ keys = [] := by
  cases keys <;> simp [held]

theorem held_push (keys : List Jwk) (key : Jwk) :
    held (key :: keys) = some (match held keys with
      | some c => c.push key
      | none => ⟨key, []⟩) := by
  cases keys <;> rfl

theorem mapM_toPublic (keys : List Jwk) :
    keys.mapM Jwk.toPublic =
      if ∃ key ∈ keys, key.isSymmetric = true then .error (.invalidKey .noPublicForm)
      else .ok (keys.map publicForm) := by
  induction keys with
  | nil => rfl
  | cons key keys ih =>
      rw [List.mapM_cons, ih, Jwk.toPublic]
      by_cases hkey : key.isSymmetric = true
      · simp only [hkey, if_true, List.exists_mem_cons_iff, true_or]
        rfl
      · simp only [hkey, List.exists_mem_cons_iff, Bool.false_eq_true, if_false, false_or]
        split <;> rfl

theorem keys_publicOnly (c : Container) :
    c.publicOnly.map Container.keys = c.keys.mapM Jwk.toPublic := by
  rw [Container.publicOnly, Container.keys, List.mapM_cons]
  cases c.latest.toPublic with
  | error e => rfl
  | ok newest =>
      cases c.older.mapM Jwk.toPublic <;> rfl

theorem keys_versions (o : StoreOptions) (c : Container) :
    (o.versions c).keys = selected o c.keys := by
  rw [StoreOptions.versions, selected]
  split <;> rfl

theorem found_of_held {m : KeyMap} {r : Reference} {o : StoreOptions}
    {result : Except Error Container}
    (h : result = match held (m r.storage r.name) with
      | some c => o.apply c
      | none => .error (.keyNotFound r)) : result.map Container.keys = m.found r o := by
  rw [h, found]
  cases hkeys : m r.storage r.name with
  | nil => rfl
  | cons newest older =>
      change (o.apply ⟨newest, older⟩).map Container.keys = _
      rw [StoreOptions.apply, if_neg (List.cons_ne_nil newest older)]
      split
      · rw [keys_publicOnly, keys_versions, mapM_toPublic]
        rfl
      · exact congrArg Except.ok (keys_versions o ⟨newest, older⟩)

theorem listing_eq (o : StoreOptions) (c : Container) :
    o.listing c = ⟨(selected o c.keys).filterMap Jwk.kid?, c.latest.keyType⟩ := by
  rw [StoreOptions.listing, Container.kids, keys_versions]
  rfl

theorem sorted_precedes {entries : List (String × Listing)} (h : (entries.map (·.1)).Nodup) :
    (Listing.sorted entries).Pairwise Precedes := by
  have hle : (Listing.sorted entries).Pairwise fun a b => Listing.before a.1 b.1 = true := by
    refine List.pairwise_mergeSort (fun a b c hab hbc => ?_) (fun a b => ?_) entries
    · exact decide_eq_true (List.le_trans (of_decide_eq_true hab) (of_decide_eq_true hbc))
    · simpa [Listing.before] using List.le_total (Bytes.ofText a.1) (Bytes.ofText b.1)
  have hne : (Listing.sorted entries).Pairwise fun a b => a.1 ≠ b.1 :=
    List.pairwise_map.mp (((List.mergeSort_perm entries _).map _).nodup_iff.mpr h)
  exact hle.and hne

theorem listed_sorted {m : KeyMap} {storage : StorageClass} {o : StoreOptions}
    {entries : List (String × Listing)} (hnodup : (entries.map (·.1)).Nodup)
    (hmem : ∀ name listing, (name, listing) ∈ entries ↔
      ∃ c, held (m storage name) = some c ∧ listing = o.listing c) :
    m.Listed storage o (Listing.sorted entries) where
  ordered := sorted_precedes hnodup
  mem_iff := by
    intro name listing
    rw [Listing.sorted, (List.mergeSort_perm entries _).mem_iff, hmem]
    constructor
    · rintro ⟨⟨newest, older⟩, hheld, rfl⟩
      exact ⟨newest, older, held_eq_some_iff.mp hheld, listing_eq o _⟩
    · rintro ⟨newest, older, hkeys, rfl⟩
      exact ⟨⟨newest, older⟩, held_eq_some_iff.mpr hkeys, (listing_eq o ⟨newest, older⟩).symm⟩

end KeyMap

end JoseTokens
