import JoseTokens.Proofs.Json.Passing

namespace JoseTokens.Json

theorem find?_eq_none {α : Type} {name : String} {ms : List (String × α)}
    (h : name ∉ ms.map (·.1)) : find? name ms = none :=
  Option.not_isSome_iff_eq_none.mp ((isSome_find?_iff name ms).not.mpr h)

theorem find?_of_mem {α : Type} {name : String} {x : α} {ms : List (String × α)}
    (hnodup : (ms.map (·.1)).Nodup) (h : (name, x) ∈ ms) : find? name ms = some x := by
  induction ms with
  | nil => cases h
  | cons m ms ih =>
      obtain ⟨hnew, hnodup⟩ := List.nodup_cons.mp hnodup
      rcases List.mem_cons.mp h with rfl | h
      · rw [find?, if_pos rfl]
      · have hne : m.1 ≠ name := by
          rintro rfl
          exact hnew (List.mem_map.mpr ⟨(m.1, x), h, rfl⟩)
        rw [find?, if_neg hne, ih hnodup h]

theorem find?_append {α : Type} (name : String) (ms others : List (String × α)) :
    find? name (ms ++ others) = (find? name ms).or (find? name others) := by
  induction ms with
  | nil => rfl
  | cons m ms ih =>
      rw [List.cons_append, find?, find?]
      split
      · rfl
      · exact ih

theorem find?_reverse {α : Type} (name : String) {ms : List (String × α)}
    (hnodup : (ms.map (·.1)).Nodup) : find? name ms.reverse = find? name ms := by
  by_cases hname : name ∈ ms.map (·.1)
  · obtain ⟨m, hm, rfl⟩ := List.mem_map.mp hname
    have hreverse : (ms.reverse.map (·.1)).Nodup := by
      rw [List.map_reverse]
      exact List.nodup_reverse.mpr hnodup
    rw [find?_of_mem hnodup hm, find?_of_mem hreverse (List.mem_reverse.mpr hm)]
  · rw [find?_eq_none hname, find?_eq_none (by rwa [List.map_reverse, List.mem_reverse])]

theorem names_zip {α : Type} (names : List String) (items : List α) :
    (names.zip items).map (·.1) = names.take items.length := by
  induction names generalizing items with
  | nil => simp
  | cons name names ih =>
      cases items with
      | nil => simp
      | cons item items => simp [ih]

theorem Written.nodup {names : List String} (hnames : names.Nodup) {text : Bytes}
    {fields : List (String × Bytes)} (h : Written names text fields) :
    (fields.map (·.1)).Nodup := by
  rcases h with ⟨_, _, _, hnodup, _⟩ | ⟨items, _, _, rfl⟩
  · exact hnodup
  · rw [names_zip]
    exact hnames.sublist (List.take_sublist _ _)

theorem Written.mem_names {names : List String} {text : Bytes} {fields : List (String × Bytes)}
    (h : Written names text fields) : ∀ field ∈ fields, field.1 ∈ names := by
  rcases h with ⟨ms, _, rfl, _⟩ | ⟨items, _, _, rfl⟩
  · intro field hfield
    simpa using (List.mem_filter.mp hfield).2
  · exact fun field hfield => (List.of_mem_zip hfield).1

theorem Worth.functional {α : Type} {P : Bytes → α → Prop}
    (h : ∀ {text x y}, P text x → P text y → x = y) {default x y : α}
    {fields : List (String × Bytes)} {name : String} (hx : Worth P default fields name x)
    (hy : Worth P default fields name y) : x = y := by
  rw [Worth] at hx hy
  cases hfound : find? name fields with
  | none =>
      rw [hfound] at hx hy
      exact Eq.trans hx (Eq.symm hy)
  | some text =>
      rw [hfound] at hx hy
      exact h hx hy

namespace Record

variable {σ : Type} {r : Record σ} {d : Nat} {mean : String → Bytes → (σ → σ) → Prop}

def names (r : Record σ) : List String :=
  r.members.map (·.name)

def Means (r : Record σ) (d : Nat) (mean : String → Bytes → (σ → σ) → Prop) : Prop :=
  ∀ m ∈ r.members, Parses (m.read d) (mean m.name)

def FillStep (mean : String → Bytes → (σ → σ) → Prop) (name : String) (s : σ) (text : Bytes)
    (t : σ) : Prop :=
  ∃ set, mean name text set ∧ t = set s

def Complete (r : Record σ) (fields : List (String × Bytes)) : Prop :=
  ∀ m ∈ r.members, m.required = true → m.name ∈ fields.map (·.1)

def MemberStep (r : Record σ) (mean : String → Bytes → (σ → σ) → Prop) (name : String)
    (s : σ × List String) (text : Bytes) (t : σ × List String) : Prop :=
  (name ∉ r.names ∧ Formed text ∧ t = s) ∨
    (name ∈ r.names ∧ name ∉ s.2 ∧ FillStep mean name s.1 text t.1 ∧ t.2 = name :: s.2)

theorem find?_eq_none_iff {name : String} :
    (r.members.find? fun m => m.name == name) = none ↔ name ∉ r.names := by
  simp [names, List.find?_eq_none]

theorem mem_names_of_find? {name : String} {m : Member σ}
    (h : (r.members.find? fun m => m.name == name) = some m) :
    m ∈ r.members ∧ m.name = name ∧ name ∈ r.names := by
  have hmem := List.mem_of_find?_eq_some h
  have hname : m.name = name := by simpa using List.find?_some h
  exact ⟨hmem, hname, List.mem_map.mpr ⟨m, hmem, hname⟩⟩

theorem memberParses_readMember (h : r.Means d mean) :
    MemberParses (r.readMember d) (MemberStep r mean) where
  takes := by
    rintro name s t text gap gap' rest hstep hgap hgap' hrest
    have hcolon : colon (gap ++ ':'.toUInt8 :: (gap' ++ (text ++ rest))) =
        .ok (gap' ++ (text ++ rest)) := colon_eq_ok_iff.mpr ⟨gap, hgap, rfl⟩
    rw [readMember, hcolon]
    rcases hstep with ⟨hname, hformed, rfl⟩ | ⟨hname, hnew, ⟨set, hset, ht⟩, hseen⟩
    · rw [find?_eq_none_iff.mpr hname]
      simp only [Except.bind, skip_blank_text hformed hgap' hrest, Except.map]
    · cases hfound : r.members.find? fun m => m.name == name with
      | none => exact absurd hname (find?_eq_none_iff.mp hfound)
      | some m =>
          obtain ⟨hmem, rfl, _⟩ := mem_names_of_find? hfound
          have hcontains : s.2.contains m.name = false := by simpa using hnew
          simp only [hcontains, Bool.false_eq_true, if_false, Except.bind,
            (h m hmem).takes hset hgap' hrest]
          rw [← ht, ← hseen]
  found := by
    intro name s t bytes rest hread
    rw [readMember] at hread
    split at hread
    next hfound =>
      obtain ⟨left, hbind, heq⟩ := map_eq_ok hread
      cases heq
      obtain ⟨after, hcolon, hskip⟩ := bind_eq_ok hbind
      obtain ⟨gap, hgap, rfl⟩ := colon_eq_ok_iff.mp hcolon
      obtain ⟨gap', text, hgap', rfl, hformed⟩ := formed_of_skipWithin hskip
      exact ⟨gap, gap', text, hgap, hgap', rfl, .inl ⟨find?_eq_none_iff.mp hfound, hformed, rfl⟩⟩
    next m hfound =>
      obtain ⟨hmem, rfl, hname⟩ := mem_names_of_find? hfound
      split at hread
      · cases hread
      next hnew =>
        split at hread
        · cases hread
        next set left hbind =>
          cases hread
          obtain ⟨after, hcolon, hset⟩ := bind_eq_ok hbind
          obtain ⟨gap, hgap, rfl⟩ := colon_eq_ok_iff.mp hcolon
          obtain ⟨gap', text, hgap', rfl, hmeans⟩ := (h m hmem).found hset
          exact ⟨gap, gap', text, hgap, hgap', rfl,
            .inr ⟨hname, by simpa using hnew, ⟨set, hmeans, rfl⟩, rfl⟩⟩

def known (r : Record σ) (ms : List (String × Bytes)) : List (String × Bytes) :=
  ms.filter fun m => m.1 ∈ r.names

theorem runs_memberStep_iff {ms : List (String × Bytes)} {s u : σ} {seen seen' : List String} :
    Runs (MemberStep r mean) (s, seen) ms (u, seen') ↔
      Runs (FillStep mean) s (r.known ms) u ∧ (∀ m ∈ ms, m.1 ∉ r.names → Formed m.2) ∧
        ((r.known ms).map (·.1)).Nodup ∧ (∀ name ∈ (r.known ms).map (·.1), name ∉ seen) ∧
        seen' = ((r.known ms).map (·.1)).reverse ++ seen := by
  induction ms generalizing s seen with
  | nil =>
      constructor
      · intro h
        cases h
        exact ⟨.nil _, by simp, by simp [known], by simp [known], by simp [known]⟩
      · rintro ⟨h, _, _, _, hseen⟩
        cases h
        rw [hseen]
        exact .nil _
  | cons m ms ih =>
      obtain ⟨name, text⟩ := m
      by_cases hname : name ∈ r.names
      · have hknown : r.known ((name, text) :: ms) = (name, text) :: r.known ms := by
          simp [known, hname]
        rw [hknown]
        constructor
        · intro h
          cases h with
          | cons hstep hruns =>
              rcases hstep with ⟨hnot, -⟩ | ⟨-, hnew, hfill, hseen⟩
              · exact absurd hname hnot
              · rename_i t
                obtain ⟨t, seen''⟩ := t
                obtain rfl : seen'' = name :: seen := hseen
                obtain ⟨hfills, hformed, hnodup, hother, rfl⟩ := ih.mp hruns
                refine ⟨.cons hfill hfills, List.forall_mem_cons.mpr ⟨fun h => absurd hname h,
                  hformed⟩, List.nodup_cons.mpr ⟨fun h => hother name h List.mem_cons_self,
                  hnodup⟩, List.forall_mem_cons.mpr ⟨hnew, fun n hn hmem => hother n hn
                  (List.mem_cons_of_mem _ hmem)⟩, by simp⟩
        · rintro ⟨hruns, hformed, hnodup, hother, rfl⟩
          cases hruns with
          | @cons _ t _ _ _ _ hfill hruns =>
              obtain ⟨hnew, hother⟩ := List.forall_mem_cons.mp hother
              obtain ⟨hnotMem, hnodup⟩ := List.nodup_cons.mp hnodup
              refine .cons (t := (t, name :: seen)) (.inr ⟨hname, hnew, hfill, rfl⟩)
                (ih.mpr ⟨hruns, (List.forall_mem_cons.mp hformed).2, hnodup, ?_, by simp⟩)
              intro n hn hmem
              rcases List.mem_cons.mp hmem with rfl | hmem
              · exact hnotMem hn
              · exact hother n hn hmem
      · have hknown : r.known ((name, text) :: ms) = r.known ms := by simp [known, hname]
        rw [hknown]
        constructor
        · intro h
          cases h with
          | cons hstep hruns =>
              rcases hstep with ⟨-, hform, rfl⟩ | ⟨hmem, -⟩
              · obtain ⟨hruns, hformed, hrest⟩ := ih.mp hruns
                exact ⟨hruns, List.forall_mem_cons.mpr ⟨fun _ => hform, hformed⟩, hrest⟩
              · exact absurd hmem hname
        · rintro ⟨hruns, hformed, hrest⟩
          obtain ⟨hform, hformed⟩ := List.forall_mem_cons.mp hformed
          exact .cons (.inl ⟨hname, hform hname, rfl⟩) (ih.mpr ⟨hruns, hformed, hrest⟩)

theorem missing?_eq_none_iff {seen : List String} :
    r.missing? seen = none ↔ ∀ m ∈ r.members, m.required = true → m.name ∈ seen := by
  simp [missing?, List.find?_eq_none]

theorem object_of_readObject (h : r.Means d mean) {start u : σ} {bytes rest : Bytes}
    (hread : r.readObject d start bytes = .ok (u, rest)) :
    ∃ text fields, '\x7b'.toUInt8 :: bytes = text ++ rest ∧ Named r.names text fields ∧
      r.Complete fields ∧ Runs (FillStep mean) start fields u := by
  rw [readObject] at hread
  split at hread
  · cases hread
  next state seen left hmembers =>
    split at hread
    · cases hread
    next hmissing =>
      cases hread
      obtain ⟨_, rfl, inner, ms, rfl, hinner, hruns⟩ :=
        (exact_members (memberParses_readMember h) (start, []) _ _ _).mp hmembers
      obtain ⟨hfills, hformed, hnodup, -, rfl⟩ := runs_memberStep_iff.mp hruns
      refine ⟨_, r.known ms, rfl, ⟨ms, ⟨inner, rfl, hinner⟩, rfl, hnodup, hformed⟩, ?_, hfills⟩
      intro m hm hrequired
      simpa using missing?_eq_none_iff.mp hmissing m hm hrequired

theorem readObject_of_object (h : r.Means d mean) {start u : σ} {text : Bytes}
    {fields : List (String × Bytes)} (htext : Named r.names text fields)
    (hcomplete : r.Complete fields) (hruns : Runs (FillStep mean) start fields u) :
    ∃ tail, text = '\x7b'.toUInt8 :: tail ∧
      ∀ rest, r.readObject d start (tail ++ rest) = .ok (u, rest) := by
  obtain ⟨ms, ⟨inner, rfl, hinner⟩, rfl, hnodup, hformed⟩ := htext
  refine ⟨_, rfl, fun rest => ?_⟩
  have hmembers := (exact_members (memberParses_readMember h) (start, [])
    (inner ++ ['\x7d'.toUInt8] ++ rest) (u, ((r.known ms).map (·.1)).reverse ++ []) rest).mpr
    ⟨_, rfl, inner, ms, rfl, hinner,
      runs_memberStep_iff.mpr ⟨hruns, hformed, hnodup, by simp, rfl⟩⟩
  have hmissing : r.missing? (((r.known ms).map (·.1)).reverse ++ []) = none :=
    missing?_eq_none_iff.mpr fun m hm hrequired => by
      have hfield := hcomplete m hm hrequired
      rw [List.append_nil, List.mem_reverse]
      exact hfield
  rw [readObject, hmembers]
  simp only [hmissing]

theorem closeArray_eq_ok_iff {bytes rest : Bytes} :
    closeArray bytes = .ok rest ↔ ∃ gap, Blank gap ∧ bytes = gap ++ ']'.toUInt8 :: rest := by
  rw [← skipBlank_eq_cons_iff rfl, closeArray]
  cases skipBlank bytes with
  | nil => simp
  | cons b tail =>
      by_cases hb : b = ']'.toUInt8
      · simp [hb]
      · simp only [hb, if_false, List.cons.injEq, false_and, iff_false]
        split <;> exact nofun

section

variable (ms : List (Member σ)) (hms : ∀ m ∈ ms, Parses (m.read d) (mean m.name))

def Spare (ms : List (Member σ)) (items : List Bytes) : Prop :=
  items.length ≤ ms.length ∧ ∀ m ∈ ms.drop items.length, m.required = false

theorem spare_nil {ms : List (Member σ)} : Spare ms [] ↔ ms.any (·.required) = false := by
  simp [Spare]

theorem spare_cons {m : Member σ} {ms : List (Member σ)} {text : Bytes} {items : List Bytes} :
    Spare (m :: ms) (text :: items) ↔ Spare ms items := by
  simp [Spare]

inductive Lead : Nat → Bytes → Prop
  | first {gap : Bytes} : Blank gap → Lead 0 gap
  | later {position : Nat} {gap gap' : Bytes} : Blank gap → Blank gap' →
      Lead (position + 1) (gap ++ ','.toUInt8 :: gap')

theorem readArray_cases {position : Nat} {ms : List (Member σ)} {s u : σ} {bytes rest : Bytes}
    (hread : r.readArray d position ms s bytes = .ok (u, rest)) :
    (∃ gap, Blank gap ∧ bytes = gap ++ ']'.toUInt8 :: rest ∧ Spare ms [] ∧ u = s) ∨
      ∃ m more lead start set left, ms = m :: more ∧ Lead position lead ∧
        bytes = lead ++ start ∧ m.read d start = .ok (set, left) ∧
        r.readArray d (position + 1) more (set s) left = .ok (u, rest) := by
  cases ms with
  | nil =>
      rw [readArray] at hread
      obtain ⟨left, hclose, heq⟩ := map_eq_ok hread
      cases heq
      obtain ⟨gap, hgap, rfl⟩ := closeArray_eq_ok_iff.mp hclose
      exact .inl ⟨gap, hgap, rfl, spare_nil.mpr rfl, rfl⟩
  | cons m more =>
      rw [readArray] at hread
      split at hread
      · cases hread
      next b tail hskip =>
        obtain ⟨gap, hgap, rfl⟩ := exists_blank_of_skip hskip
        split at hread
        next hb =>
          split at hread
          · cases hread
          next hrequired =>
            cases hread
            exact .inl ⟨gap, hgap, by rw [hb], spare_nil.mpr (by simpa using hrequired), rfl⟩
        · dsimp only at hread
          split at hread
          · cases hread
          next set left hbind =>
            obtain ⟨start, hstart, hset⟩ := bind_eq_ok hbind
            cases position with
            | zero =>
                cases hstart
                exact .inr ⟨m, more, gap, b :: tail, set, left, rfl, .first hgap, rfl, hset, hread⟩
            | succ position =>
                simp only [Nat.add_one_ne_zero, if_false] at hstart
                split at hstart
                next hcomma =>
                  split at hstart
                  · cases hstart
                  next c after hafter =>
                    obtain ⟨gap', hgap', rfl⟩ := exists_blank_of_skip hafter
                    split at hstart <;> cases hstart
                    exact .inr ⟨m, more, _, c :: after, set, left, rfl, .later hgap hgap',
                      by simp [hcomma], hset, hread⟩
                · cases hstart

theorem readArray_closing {ms : List (Member σ)} {gap : Bytes} (hgap : Blank gap)
    (hspare : Spare ms []) (position : Nat) (s : σ) (rest : Bytes) :
    r.readArray d position ms s (gap ++ ']'.toUInt8 :: rest) = .ok (s, rest) := by
  cases ms with
  | nil =>
      rw [readArray, closeArray_eq_ok_iff.mpr ⟨_, hgap, rfl⟩]
      rfl
  | cons m ms =>
      rw [readArray, hgap.skip, skipBlank_cons (b := ']'.toUInt8) rfl]
      simp only [if_true, spare_nil.mp hspare, Bool.false_eq_true, if_false]

theorem readArray_item {m : Member σ} {position : Nat} {lead text after left : Bytes}
    {set : σ → σ} (hlead : Lead position lead) (hstart : Starts text)
    (hset : m.read d (text ++ after) = .ok (set, left)) (ms : List (Member σ)) (s : σ) :
    r.readArray d position (m :: ms) s (lead ++ (text ++ after)) =
      r.readArray d (position + 1) ms (set s) left := by
  cases text with
  | nil => exact hstart.elim
  | cons b text =>
      rw [List.cons_append] at hset
      rw [readArray]
      cases hlead with
      | first hgap =>
          rw [hgap.skip, skipBlank_starts hstart]
          simp only [List.cons_append, if_neg hstart.2.1, if_true, Except.bind, hset]
      | later hgap hgap' =>
          have hne : ','.toUInt8 ≠ ']'.toUInt8 := by decide
          rw [List.append_assoc, List.cons_append, hgap.skip,
            skipBlank_cons (b := ','.toUInt8) rfl]
          simp only [if_neg hne, Nat.add_one_ne_zero, if_false, if_true, hgap'.skip,
            List.cons_append, skipBlank_cons hstart.1, if_neg hstart.2.1, Except.bind, hset]

include hms

theorem tail_of_readArray {position : Nat} {s u : σ} {bytes rest : Bytes}
    (hread : r.readArray d (position + 1) ms s bytes = .ok (u, rest)) :
    ∃ inner items, bytes = inner ++ ']'.toUInt8 :: rest ∧ Tail Eq inner items ∧ Spare ms items ∧
      Runs (FillStep mean) s ((ms.map (·.name)).zip items) u := by
  induction ms generalizing position s bytes with
  | nil =>
      obtain ⟨gap, hgap, rfl, hspare, rfl⟩ | ⟨_, _, _, _, _, _, hcons, _⟩ := readArray_cases hread
      · exact ⟨gap, [], rfl, .nil hgap, hspare, .nil _⟩
      · cases hcons
  | cons m ms ih =>
      obtain ⟨gap, hgap, rfl, hspare, rfl⟩ |
        ⟨_, _, _, start, set, left, hcons, hlead, rfl, hset, hnext⟩ := readArray_cases hread
      · exact ⟨gap, [], rfl, .nil hgap, hspare, .nil _⟩
      · cases hcons
        cases hlead with
        | @later _ gap gap' hgap hgap' =>
            obtain ⟨hm, hms⟩ := List.forall_mem_cons.mp hms
            obtain ⟨gap'', text, hgap'', rfl, hmeans⟩ := hm.found hset
            obtain ⟨inner, items, rfl, htail, hspare, hruns⟩ := ih hms hnext
            exact ⟨gap ++ ','.toUInt8 :: ((gap' ++ gap'') ++ (text ++ inner)), text :: items,
              by simp, .cons hgap (hgap'.append hgap'') rfl htail, spare_cons.mpr hspare,
              .cons ⟨set, hmeans, rfl⟩ hruns⟩

theorem array_of_readArray {s u : σ} {bytes rest : Bytes}
    (hread : r.readArray d 0 ms s bytes = .ok (u, rest)) :
    ∃ text items, '['.toUInt8 :: bytes = text ++ rest ∧ ArrayText text items ∧ Spare ms items ∧
      Runs (FillStep mean) s ((ms.map (·.name)).zip items) u := by
  obtain ⟨gap, hgap, rfl, hspare, rfl⟩ |
    ⟨m, ms, gap, start, set, left, rfl, hlead, rfl, hset, hnext⟩ := readArray_cases hread
  · refine ⟨'['.toUInt8 :: (gap ++ [']'.toUInt8]), [], by simp, ⟨gap, rfl, .none hgap⟩, hspare, ?_⟩
    rw [List.zip_nil_right]
    exact .nil _
  · cases hlead with
    | first hgap =>
        obtain ⟨hm, hms⟩ := List.forall_mem_cons.mp hms
        obtain ⟨gap', text, hgap', rfl, hmeans⟩ := hm.found hset
        obtain ⟨inner, items, rfl, htail, hspare, hruns⟩ := tail_of_readArray ms hms hnext
        exact ⟨'['.toUInt8 :: ((gap ++ gap') ++ (text ++ inner) ++ [']'.toUInt8]),
          text :: items, by simp, ⟨_, rfl, .some (hgap.append hgap') rfl htail⟩,
          spare_cons.mpr hspare, .cons ⟨set, hmeans, rfl⟩ hruns⟩

theorem readArray_tail {inner : Bytes} {items : List Bytes} (htail : Tail Eq inner items)
    (hspare : Spare ms items) {s u : σ}
    (hruns : Runs (FillStep mean) s ((ms.map (·.name)).zip items) u) (position : Nat)
    (rest : Bytes) :
    r.readArray d (position + 1) ms s (inner ++ ']'.toUInt8 :: rest) = .ok (u, rest) := by
  induction htail generalizing ms s position with
  | nil hgap =>
      rw [List.zip_nil_right] at hruns
      cases hruns
      exact readArray_closing hgap hspare _ _ _
  | @cons gap gap' text more _ items hgap hgap' heq htail ih =>
      subst heq
      cases ms with
      | nil => simp [Spare] at hspare
      | cons m ms =>
          obtain ⟨hm, hms⟩ := List.forall_mem_cons.mp hms
          cases hruns with
          | cons hfill hruns =>
              obtain ⟨set, hset, rfl⟩ := hfill
              have hread := hm.takes hset Blank.nil (closed_tail htail (closed_bracket rest))
              have hbytes : gap ++ ','.toUInt8 :: (gap' ++ (text ++ more)) ++ ']'.toUInt8 :: rest =
                  gap ++ ','.toUInt8 :: gap' ++ (text ++ (more ++ ']'.toUInt8 :: rest)) := by
                simp
              rw [hbytes, readArray_item (.later hgap hgap') (hm.starts hset) hread]
              exact ih ms hms (spare_cons.mp hspare) hruns (position + 1)

theorem readArray_of_array {text : Bytes} {items : List Bytes} (htext : ArrayText text items)
    (hspare : Spare ms items) {s u : σ}
    (hruns : Runs (FillStep mean) s ((ms.map (·.name)).zip items) u) :
    ∃ tail, text = '['.toUInt8 :: tail ∧
      ∀ rest, r.readArray d 0 ms s (tail ++ rest) = .ok (u, rest) := by
  obtain ⟨inner, rfl, hinner⟩ := htext
  refine ⟨_, rfl, fun rest => ?_⟩
  rw [List.append_assoc, List.singleton_append]
  cases hinner with
  | none hgap =>
      rw [List.zip_nil_right] at hruns
      cases hruns
      exact readArray_closing hgap hspare _ _ _
  | @some gap text more _ items hgap heq htail =>
      subst heq
      cases ms with
      | nil => simp [Spare] at hspare
      | cons m ms =>
          obtain ⟨hm, hms⟩ := List.forall_mem_cons.mp hms
          cases hruns with
          | cons hfill hruns =>
              obtain ⟨set, hset, rfl⟩ := hfill
              have hread := hm.takes hset Blank.nil (closed_tail htail (closed_bracket rest))
              rw [List.append_assoc, List.append_assoc,
                readArray_item (.first hgap) (hm.starts hset) hread]
              exact readArray_tail ms hms htail (spare_cons.mp hspare) hruns 0 rest

end

theorem complete_zip_iff (hnames : r.names.Nodup) {items : List Bytes}
    (hlength : items.length ≤ r.names.length) :
    r.Complete (r.names.zip items) ↔ Spare r.members items := by
  have hsplit := List.take_append_drop items.length r.members
  rw [names, ← hsplit, List.map_append, List.nodup_append] at hnames
  rw [Complete, names_zip, names, ← List.map_take]
  constructor
  · intro h
    refine ⟨by simpa [names] using hlength, fun m hm => Bool.eq_false_iff.mpr fun hrequired => ?_⟩
    exact hnames.2.2 m.name (h m (List.mem_of_mem_drop hm) hrequired) m.name
      (List.mem_map_of_mem hm) rfl
  · rintro ⟨_, h⟩ m hm hrequired
    rw [← hsplit, List.mem_append] at hm
    rcases hm with hm | hm
    · exact List.mem_map_of_mem hm
    · rw [h m hm] at hrequired
      cases hrequired

theorem parses_read (h : r.Means d mean) (hnames : r.names.Nodup) (start : σ) :
    Parses (r.read start (d + 1)) fun text u =>
      ∃ fields, Written r.names text fields ∧ r.Complete fields ∧
        Runs (FillStep mean) start fields u := by
  refine .of_reads ?_ ?_ ?_ ?_ (by simp [Record.read, skipBlank])
  · intro bytes
    rw [Record.read, Record.read, skipBlank_skipBlank]
  · rintro text u ⟨fields, ⟨ms, htext, _⟩ | ⟨items, htext, _⟩, _, _⟩
    · exact starts_objectOf htext
    · exact starts_arrayText htext
  · rintro text u ⟨fields, hobject | ⟨items, htext, hlength, rfl⟩, hcomplete, hruns⟩ rest _
    · obtain ⟨tail, rfl, hread⟩ := readObject_of_object h hobject hcomplete hruns
      rw [List.cons_append, Record.read, skipBlank_cons (b := '\x7b'.toUInt8) rfl]
      simp only [if_true, hread]
    · obtain ⟨tail, rfl, hread⟩ := readArray_of_array (r := r) r.members h htext
        ((complete_zip_iff hnames hlength).mp hcomplete) hruns
      have hne : '['.toUInt8 ≠ '\x7b'.toUInt8 := by decide
      rw [List.cons_append, Record.read, skipBlank_cons (b := '['.toUInt8) rfl]
      simp only [if_neg hne, if_true, hread]
  · intro b tail rest u hb hread
    rw [Record.read, skipBlank_cons hb] at hread
    simp only at hread
    split at hread
    next hbrace =>
      obtain ⟨text, fields, htext, hobject, hcomplete, hruns⟩ := object_of_readObject h hread
      exact ⟨text, by rw [hbrace, htext], fields, .inl hobject, hcomplete, hruns⟩
    · split at hread
      next hbracket =>
        obtain ⟨text, items, htext, harray, hspare, hruns⟩ :=
          array_of_readArray r.members h hread
        have hlength : items.length ≤ r.names.length := by
          rw [names, List.length_map]
          exact hspare.1
        exact ⟨text, by rw [hbracket, htext], _, .inr ⟨items, harray, hlength, rfl⟩,
          (complete_zip_iff hnames hlength).mpr hspare, hruns⟩
      · cases hread

section

variable {α : Type} {P : Bytes → α → Prop} {get : σ → α} {set : α → σ → σ} {name : String}
  {slots : List (String × (Bytes → (σ → σ) → Prop))}

def SetBy (P : Bytes → α → Prop) (set : α → σ → σ) (text : Bytes) (f : σ → σ) : Prop :=
  ∃ x, P text x ∧ set x = f

def Meaning (slots : List (String × (Bytes → (σ → σ) → Prop))) (name : String) (text : Bytes)
    (f : σ → σ) : Prop :=
  ∃ Q, (name, Q) ∈ slots ∧ Q text f

theorem parses_member {reader : Reader α} (h : Parses (reader d) P) (name : String)
    (required : Bool) (set : α → σ → σ) :
    Parses ((Member.of name required reader set).read d) (SetBy P set) :=
  h.map set

theorem means_of_slots
    (h : List.Forall₂ (fun m slot => m.name = slot.1 ∧ Parses (m.read d) slot.2) r.members slots)
    (hnodup : (slots.map (·.1)).Nodup) : r.Means d (Meaning slots) := by
  intro m hm
  have hslot : ∃ Q, (m.name, Q) ∈ slots ∧ Parses (m.read d) Q := by
    obtain ⟨slot, hslot, hname, hparses⟩ := forall₂_mem_right h.flip hm
    exact ⟨slot.2, hname ▸ hslot, hparses⟩
  obtain ⟨Q, hQ, hparses⟩ := hslot
  refine hparses.congr fun text f => ⟨fun htext => ⟨Q, hQ, htext⟩, ?_⟩
  rintro ⟨R, hR, htext⟩
  have heq : Q = R := Option.some.inj ((find?_of_mem hnodup hQ).symm.trans (find?_of_mem hnodup hR))
  exact heq ▸ htext

inductive SetAlone (get : σ → α) (name : String) :
    List (String × (Bytes → (σ → σ) → Prop)) → Prop
  | nil : SetAlone get name []
  | own {Q : Bytes → (σ → σ) → Prop} {slots : List (String × (Bytes → (σ → σ) → Prop))} :
      SetAlone get name slots → SetAlone get name ((name, Q) :: slots)
  | other {β : Type} {other : String} {Q : Bytes → β → Prop} {set : β → σ → σ}
      {slots : List (String × (Bytes → (σ → σ) → Prop))} :
      (∀ x s, get (set x s) = get s) → SetAlone get name slots →
      SetAlone get name ((other, SetBy Q set) :: slots)

theorem SetAlone.keeps (h : SetAlone get name slots) {other : String}
    {Q : Bytes → (σ → σ) → Prop} (hQ : (other, Q) ∈ slots) (hne : other ≠ name) {text : Bytes}
    {f : σ → σ} (hf : Q text f) (s : σ) : get (f s) = get s := by
  induction h with
  | nil => cases hQ
  | own _ ih =>
      rcases List.mem_cons.mp hQ with heq | hQ
      · exact absurd (Prod.mk.inj heq).1 hne
      · exact ih hQ
  | other hset _ ih =>
      rcases List.mem_cons.mp hQ with heq | hQ
      · cases heq
        obtain ⟨x, _, rfl⟩ := hf
        exact hset x s
      · exact ih hQ

theorem worth_of_runs (get : σ → α) {s u : σ} {fields : List (String × Bytes)}
    (hruns : Runs (FillStep (Meaning slots)) s fields u) (honce : (fields.map (·.1)).Nodup)
    (hnodup : (slots.map (·.1)).Nodup) (hself : (name, SetBy P set) ∈ slots)
    (hget : ∀ x s, get (set x s) = x) (halone : SetAlone get name slots) :
    Worth P (get s) fields name (get u) := by
  induction hruns with
  | nil s => exact rfl
  | @cons s _ u other text ms hfill _ ih =>
      obtain ⟨f, ⟨Q, hQ, hf⟩, rfl⟩ := hfill
      obtain ⟨hnew, honce⟩ := List.nodup_cons.mp honce
      have hrest := ih honce
      rw [Worth] at hrest ⊢
      by_cases hname : other = name
      · subst hname
        have heq : Q = SetBy P set :=
          Option.some.inj ((find?_of_mem hnodup hQ).symm.trans (find?_of_mem hnodup hself))
        obtain ⟨x, hx, rfl⟩ := heq ▸ hf
        rw [find?_eq_none hnew] at hrest
        rw [find?, if_pos rfl, show get u = x from hrest.trans (hget x s)]
        exact hx
      · rw [halone.keeps hQ hname hf s] at hrest
        rw [find?, if_neg hname]
        exact hrest

theorem meaning_of_worth (hself : (name, SetBy P set) ∈ slots) {default x : α}
    {fields : List (String × Bytes)} (h : Worth P default fields name x) {text : Bytes}
    (hfound : find? name fields = some text) : ∃ f, Meaning slots name text f := by
  rw [Worth, hfound] at h
  exact ⟨set x, _, hself, x, h, rfl⟩

theorem exists_runs (slots : List (String × (Bytes → (σ → σ) → Prop))) {text : Bytes}
    {fields : List (String × Bytes)}
    (hwritten : Written (slots.map (·.1)) text fields) (hnodup : (slots.map (·.1)).Nodup)
    (h : ∀ slot ∈ slots, ∀ text, find? slot.1 fields = some text →
      ∃ f, Meaning slots slot.1 text f) (s : σ) :
    ∃ u, Runs (FillStep (Meaning slots)) s fields u := by
  have hmeans : ∀ field ∈ fields, ∃ f, Meaning slots field.1 field.2 f := by
    intro field hfield
    have hmem := hwritten.mem_names field hfield
    rw [List.mem_map] at hmem
    obtain ⟨slot, hslot, hname⟩ := hmem
    have hfound := find?_of_mem (hwritten.nodup hnodup) hfield
    exact hname ▸ h slot hslot field.2 (hname ▸ hfound)
  clear hwritten h
  induction fields generalizing s with
  | nil => exact ⟨s, .nil s⟩
  | cons field fields ih =>
      obtain ⟨⟨f, hf⟩, hfields⟩ := List.forall_mem_cons.mp hmeans
      obtain ⟨u, hu⟩ := ih (f s) hfields
      exact ⟨u, .cons ⟨f, hf, rfl⟩ hu⟩

end

end Record

end JoseTokens.Json
