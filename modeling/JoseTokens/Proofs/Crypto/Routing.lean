import JoseTokens.Crypto.Registry

namespace JoseTokens

variable {m : Type → Type}

structure Registration.Covers (r : Registration m) (scope : Scope) (reference : Option Reference) :
    Prop where
  scope : r.scope = scope
  storage : ∀ wanted ∈ reference, wanted.storage ∈ r.storage

theorem Registration.serves_iff {r : Registration m} {scope : Scope}
    {reference : Option Reference} : r.serves scope reference = true ↔ r.Covers scope reference := by
  rw [serves.eq_def, Bool.and_eq_true, beq_iff_eq]
  cases reference with
  | none => exact ⟨fun h => ⟨h.1, nofun⟩, fun h => ⟨h.scope, rfl⟩⟩
  | some wanted =>
      rw [List.contains_iff_mem]
      exact ⟨fun h => ⟨h.1, fun _ hwanted => Option.some.inj hwanted ▸ h.2⟩,
        fun h => ⟨h.scope, h.storage wanted rfl⟩⟩

namespace Registry

structure Entry.Suits (entry : Entry m) (capability : Capability) (algorithm : String)
    (scope : Scope) (reference : Option Reference) : Prop where
  capability : entry.capability = capability
  algorithm : entry.algorithm = algorithm
  covers : entry.registration.Covers scope reference

def history (r : Registry m) : List (Entry m) :=
  r.entries.reverse

def registerAll (r : Registry m) (calls : List (Entry m)) : Registry m :=
  calls.foldl (fun r call => r.register call.capability call.algorithm call.registration) r

theorem history_register (r : Registry m) (call : Entry m) :
    (r.register call.capability call.algorithm call.registration).history = r.history ++ [call] :=
  List.reverse_cons

theorem history_registerAll (r : Registry m) (calls : List (Entry m)) :
    (r.registerAll calls).history = r.history ++ calls := by
  induction calls generalizing r with
  | nil => exact (List.append_nil _).symm
  | cons call calls ih =>
      have hrest := ih (r.register call.capability call.algorithm call.registration)
      rw [history_register, List.append_assoc, List.singleton_append] at hrest
      exact hrest

section

variable (calls : List (Entry m)) (capability : Capability) (algorithm : String) (scope : Scope)
  (reference : Option Reference)

def Latest (call : Entry m) : Prop :=
  call.Suits capability algorithm scope reference ∧ ∃ earlier later,
    calls = earlier ++ call :: later ∧
      ∀ other ∈ later, ¬ other.Suits capability algorithm scope reference

def NoneSuits : Prop :=
  ∀ call ∈ calls, ¬ call.Suits capability algorithm scope reference

inductive Routed : Except Error (Adapter m) → Prop
  | exact {call : Entry m} :
      Latest calls capability algorithm scope reference call →
      Routed (.ok call.registration.adapter)
  | any {call : Entry m} :
      NoneSuits calls capability algorithm scope reference →
      Latest calls capability anyAlgorithm scope reference call →
      Routed (.ok call.registration.adapter)
  | none :
      NoneSuits calls capability algorithm scope reference →
      NoneSuits calls capability anyAlgorithm scope reference →
      Routed (.error (.noAdapter capability algorithm scope))

end

def Entry.isFor (entry : Entry m) (capability : Capability) (algorithm : String) : Bool :=
  entry.capability == capability &&
    (entry.algorithm == algorithm || entry.algorithm == anyAlgorithm)

section

variable {r : Registry m} {capability : Capability} {algorithm : String} {scope : Scope}
  {reference : Option Reference}

theorem entry_suits_iff {entry : Entry m} :
    (entry.capability == capability && entry.algorithm == algorithm &&
      entry.registration.serves scope reference) = true ↔
      entry.Suits capability algorithm scope reference := by
  rw [Bool.and_eq_true, Bool.and_eq_true, beq_iff_eq, beq_iff_eq, Registration.serves_iff]
  exact ⟨fun h => ⟨h.1.1, h.1.2, h.2⟩, fun h => ⟨⟨h.capability, h.algorithm⟩, h.covers⟩⟩

theorem lookup?_eq_some_iff {registration : Registration m} :
    r.lookup? capability algorithm scope reference = some registration ↔
      ∃ call, Latest r.history capability algorithm scope reference call ∧
        call.registration = registration := by
  rw [lookup?, Option.map_eq_some_iff]
  refine exists_congr fun call => and_congr_left fun _ => ?_
  simp only [List.find?_eq_some_iff_append, entry_suits_iff, Latest, history, Bool.not_eq_true']
  refine and_congr_right fun _ => ?_
  constructor
  · rintro ⟨newer, older, hentries, hnewer⟩
    refine ⟨older.reverse, newer.reverse, by simp [hentries], fun other hother hsuits => ?_⟩
    have hfalse := hnewer other (List.mem_reverse.mp hother)
    rw [entry_suits_iff.mpr hsuits] at hfalse
    cases hfalse
  · rintro ⟨earlier, later, hentries, hlater⟩
    refine ⟨later.reverse, earlier.reverse, ?_, fun other hother => ?_⟩
    · rw [← List.reverse_reverse r.entries, hentries]
      simp
    · have hnot := hlater other (List.mem_reverse.mp hother)
      rwa [← entry_suits_iff, Bool.not_eq_true] at hnot

theorem lookup?_eq_none_iff :
    r.lookup? capability algorithm scope reference = none ↔
      NoneSuits r.history capability algorithm scope reference := by
  simp only [lookup?, Option.map_eq_none_iff, List.find?_eq_none, entry_suits_iff, NoneSuits,
    history, List.mem_reverse]

theorem resolve_eq_iff {result : Except Error (Adapter m)} :
    r.resolve capability algorithm scope reference = result ↔
      Routed r.history capability algorithm scope reference result := by
  rw [resolve]
  constructor
  · rintro rfl
    cases hexact : r.lookup? capability algorithm scope reference with
    | some registration =>
        obtain ⟨call, hcall, rfl⟩ := lookup?_eq_some_iff.mp hexact
        exact .exact hcall
    | none =>
        have hnone := lookup?_eq_none_iff.mp hexact
        cases hany : r.lookup? capability anyAlgorithm scope reference with
        | some registration =>
            obtain ⟨call, hcall, rfl⟩ := lookup?_eq_some_iff.mp hany
            exact .any hnone hcall
        | none => exact .none hnone (lookup?_eq_none_iff.mp hany)
  · intro hrouted
    cases hrouted with
    | exact hcall => rw [lookup?_eq_some_iff.mpr ⟨_, hcall, rfl⟩, Option.some_or]
    | any hnone hcall =>
        rw [lookup?_eq_none_iff.mpr hnone, lookup?_eq_some_iff.mpr ⟨_, hcall, rfl⟩, Option.none_or]
    | none hnone hany =>
        rw [lookup?_eq_none_iff.mpr hnone, lookup?_eq_none_iff.mpr hany, Option.none_or]

theorem lookup?_filter {P : Entry m → Bool}
    (hall : ∀ entry, entry.Suits capability algorithm scope reference → P entry = true) :
    (⟨r.entries.filter P⟩ : Registry m).lookup? capability algorithm scope reference =
      r.lookup? capability algorithm scope reference := by
  rw [lookup?, lookup?, List.find?_filter]
  congr 2
  funext entry
  rw [Bool.eq_iff_iff, decide_eq_true_iff, and_iff_right_iff_imp]
  exact fun hsuits => hall entry (entry_suits_iff.mp hsuits)

theorem lookup?_congr {r' : Registry m} {P : Entry m → Bool}
    (hall : ∀ entry, entry.Suits capability algorithm scope reference → P entry = true)
    (h : r.history.filter P = r'.history.filter P) :
    r.lookup? capability algorithm scope reference =
      r'.lookup? capability algorithm scope reference := by
  have hentries : r.entries.filter P = r'.entries.filter P := by
    simpa only [history, List.filter_reverse, List.reverse_inj] using h
  rw [← lookup?_filter hall, hentries, lookup?_filter hall]

theorem Entry.Suits.isFor {entry : Entry m} {name : String}
    (h : entry.Suits capability name scope reference)
    (hname : name = algorithm ∨ name = anyAlgorithm) :
    entry.isFor capability algorithm = true := by
  rw [Entry.isFor, h.capability, h.algorithm]
  simpa using hname

theorem resolve_congr {r' : Registry m}
    (h : r.history.filter (·.isFor capability algorithm) =
      r'.history.filter (·.isFor capability algorithm)) :
    r.resolve capability algorithm scope reference =
      r'.resolve capability algorithm scope reference := by
  rw [resolve, resolve, lookup?_congr (fun _ hsuits => hsuits.isFor (.inl rfl)) h,
    lookup?_congr (fun _ hsuits => hsuits.isFor (.inr rfl)) h]

end

theorem resolve_registerAll (r : Registry m) (calls : List (Entry m)) (capability : Capability)
    (algorithm : String) (scope : Scope) (reference : Option Reference) :
    (∀ result, (r.registerAll calls).resolve capability algorithm scope reference = result ↔
      Routed (r.history ++ calls) capability algorithm scope reference result) ∧
    (r.registerAll calls).resolve capability algorithm scope reference =
      (registerAll {} ((r.history ++ calls).filter (·.isFor capability algorithm))).resolve
        capability algorithm scope reference := by
  have hhistory := history_registerAll r calls
  refine ⟨fun result => hhistory ▸ resolve_eq_iff, resolve_congr ?_⟩
  have hempty : ({} : Registry m).history = [] := rfl
  rw [hhistory, history_registerAll, hempty, List.nil_append, List.filter_filter]
  simp only [Bool.and_self]

example (special general : Adapter m) :
    (registerAll {} [
      ⟨.messageSigner, "ES256K", ⟨special, .kept, [.key]⟩⟩,
      ⟨.messageSigner, anyAlgorithm, ⟨general, .kept, [.key, .secret]⟩⟩]).resolve
        .messageSigner "ES256K" .kept none = .ok special :=
  rfl

end Registry

end JoseTokens
