import JoseTokens.Proofs.Json.Spelling
import JoseTokens.Proofs.Json.Values

namespace JoseTokens.Json

structure Parses {α : Type} (reader : Bytes → Step α) (P : Bytes → α → Prop) : Prop where
  starts {text : Bytes} {x : α} : P text x → Starts text
  takes {text gap rest : Bytes} {x : α} :
    P text x → Blank gap → Closed rest → reader (gap ++ (text ++ rest)) = .ok (x, rest)
  found {bytes rest : Bytes} {x : α} :
    reader bytes = .ok (x, rest) → ∃ gap text, Blank gap ∧ bytes = gap ++ (text ++ rest) ∧ P text x

def DocumentOf {α : Type} (P : Bytes → α → Prop) (bytes : Bytes) (x : α) : Prop :=
  ∃ gap text gap', Blank gap ∧ Blank gap' ∧ bytes = gap ++ (text ++ gap') ∧ P text x

section

variable {α β : Type} {P : Bytes → α → Prop}

theorem closed_blank {b : UInt8} (h : isBlank b = true) (rest : Bytes) : Closed (b :: rest) := by
  simp only [isBlank, Bool.or_eq_true, beq_iff_eq] at h
  rcases h with ((rfl | rfl) | rfl) | rfl <;> exact ⟨rfl, by decide, rfl⟩

theorem Blank.closed {gap : Bytes} (h : Blank gap) {rest : Bytes} (hrest : Closed rest) :
    Closed (gap ++ rest) := by
  cases gap with
  | nil => exact hrest
  | cons b gap => exact closed_blank (h b List.mem_cons_self) _

theorem Blank.closed_end {gap : Bytes} (h : Blank gap) : Closed gap := by
  rw [← List.append_nil gap]
  exact h.closed trivial

theorem Blank.append {gap gap' : Bytes} (h : Blank gap) (h' : Blank gap') :
    Blank (gap ++ gap') := by
  intro b hb
  rcases List.mem_append.mp hb with hb | hb
  · exact h b hb
  · exact h' b hb

theorem Blank.skip_all {gap : Bytes} (h : Blank gap) : skipBlank gap = [] := by
  rw [← List.append_nil gap, h.skip]
  rfl

theorem blank_of_skip {bytes : Bytes} (h : skipBlank bytes = []) : Blank bytes := by
  obtain ⟨gap, hgap, hbytes⟩ := exists_blank bytes
  rw [hbytes, h, List.append_nil]
  exact hgap

theorem skipBlank_skipBlank (bytes : Bytes) : skipBlank (skipBlank bytes) = skipBlank bytes := by
  obtain ⟨gap, hgap, hbytes⟩ := exists_blank bytes
  exact (hgap.skip (skipBlank bytes)).symm.trans (congrArg skipBlank hbytes.symm)

theorem Parses.reads {reader : Bytes → Step α} (h : Parses reader P) {text : Bytes} {x : α}
    (htext : P text x) : Reads reader text x :=
  fun _ hrest => h.takes htext Blank.nil hrest

theorem Parses.functional {reader : Bytes → Step α} (h : Parses reader P) {text : Bytes} {x y : α}
    (hx : P text x) (hy : P text y) : x = y := by
  have hread := (h.reads hx [] trivial).symm.trans (h.reads hy [] trivial)
  exact (Prod.mk.inj (Except.ok.inj hread)).1

theorem Parses.document_eq_ok_iff {reader : Reader α} (h : Parses (reader maxDepth) P)
    {bytes : Bytes} {x : α} : document reader bytes = .ok x ↔ DocumentOf P bytes x := by
  constructor
  · intro hread
    rw [document] at hread
    split at hread
    · cases hread
    next y rest hy =>
      split at hread
      next hrest =>
        cases hread
        obtain ⟨gap, text, hgap, rfl, htext⟩ := h.found hy
        exact ⟨gap, text, rest, hgap, blank_of_skip (List.isEmpty_iff.mp hrest), rfl, htext⟩
      · cases hread
  · rintro ⟨gap, text, gap', hgap, hgap', rfl, htext⟩
    rw [document, h.takes htext hgap hgap'.closed_end]
    simp only [hgap'.skip_all, List.isEmpty_nil, if_true]

theorem DocumentOf.of_text {text : Bytes} {x : α} (h : P text x) : DocumentOf P text x :=
  ⟨[], text, [], Blank.nil, Blank.nil, (List.append_nil text).symm, h⟩

theorem DocumentOf.imp {Q : Bytes → β → Prop} {bytes : Bytes} {x : α} {y : β}
    (hPQ : ∀ {text}, P text x → Q text y) (h : DocumentOf P bytes x) : DocumentOf Q bytes y := by
  obtain ⟨gap, text, after, hgap, hafter, hbytes, htext⟩ := h
  exact ⟨gap, text, after, hgap, hafter, hbytes, hPQ htext⟩

theorem Parses.document_functional {reader : Bytes → Step α} (h : Parses reader P) {bytes : Bytes}
    {x y : α} (hx : DocumentOf P bytes x) (hy : DocumentOf P bytes y) : x = y := by
  obtain ⟨gap, text, after, hgap, hafter, rfl, hx⟩ := hx
  obtain ⟨gap', text', after', hgap', hafter', htext, hy⟩ := hy
  have hread := h.takes hy hgap' hafter'.closed_end
  rw [← htext, h.takes hx hgap hafter.closed_end] at hread
  exact (Prod.mk.inj (Except.ok.inj hread)).1

def PassesBlanks (reader : Bytes → Step α) : Prop :=
  ∀ bytes, reader (skipBlank bytes) = reader bytes

theorem PassesBlanks.blank {reader : Bytes → Step α} (h : PassesBlanks reader) {gap : Bytes}
    (hgap : Blank gap) (bytes : Bytes) : reader (gap ++ bytes) = reader bytes := by
  rw [← h, hgap.skip, h]

theorem Parses.of_reads {reader : Bytes → Step α} (hpasses : PassesBlanks reader)
    (hstarts : ∀ {text x}, P text x → Starts text)
    (hreads : ∀ {text x}, P text x → Reads reader text x)
    (hfound : ∀ {b tail rest x}, isBlank b = false → reader (b :: tail) = .ok (x, rest) →
      ∃ text, b :: tail = text ++ rest ∧ P text x)
    (hempty : ∀ y, reader [] ≠ .ok y) : Parses reader P where
  starts := hstarts
  takes htext hgap hrest := by rw [hpasses.blank hgap, hreads htext _ hrest]
  found := by
    intro bytes rest x hread
    obtain ⟨gap, hgap, hbytes⟩ := exists_blank bytes
    rw [← hpasses] at hread
    cases hskip : skipBlank bytes with
    | nil =>
        rw [hskip] at hread
        exact absurd hread (hempty _)
    | cons b tail =>
        have hb : isBlank b = false := by
          have hhead := List.head?_dropWhile_not isBlank bytes
          rw [show bytes.dropWhile isBlank = b :: tail from hskip] at hhead
          simpa using hhead
        rw [hskip] at hread hbytes
        obtain ⟨text, htext, hP⟩ := hfound hb hread
        exact ⟨gap, text, hgap, by rw [hbytes, htext], hP⟩

theorem Parses.map {reader : Bytes → Step α} (h : Parses reader P) (f : α → β) :
    Parses (fun bytes => (reader bytes).map fun (x, rest) => (f x, rest))
      fun text y => ∃ x, P text x ∧ f x = y where
  starts := fun ⟨_, hx, _⟩ => h.starts hx
  takes := by
    rintro text gap rest _ ⟨x, hx, rfl⟩ hgap hrest
    simp only [h.takes hx hgap hrest, Except.map]
  found := by
    intro bytes rest y hread
    obtain ⟨⟨x, _⟩, hx, heq⟩ := map_eq_ok hread
    cases heq
    obtain ⟨gap, text, hgap, hbytes, htext⟩ := h.found hx
    exact ⟨gap, text, hgap, hbytes, x, htext, rfl⟩

theorem Parses.congr {reader : Bytes → Step α} {Q : Bytes → α → Prop} (h : Parses reader P)
    (hiff : ∀ text x, P text x ↔ Q text x) : Parses reader Q := by
  have heq : P = Q := funext fun text => funext fun x => propext (hiff text x)
  exact heq ▸ h

theorem Parses.check {reader : Bytes → Step α} (h : Parses reader P) {f : α → Except ReadError β}
    {checked : Bytes → Step β} (hchecked : ∀ bytes, checked bytes =
      (reader bytes).bind fun (x, rest) => (f x).map fun y => (y, rest)) :
    Parses checked fun text y => ∃ x, P text x ∧ f x = .ok y where
  starts := fun ⟨_, htext, _⟩ => h.starts htext
  takes := by
    rintro text gap rest y ⟨x, htext, hy⟩ hgap hrest
    rw [hchecked, h.takes htext hgap hrest]
    simp only [Except.bind, hy, Except.map]
  found := by
    intro bytes rest y hread
    rw [hchecked] at hread
    obtain ⟨⟨x, left⟩, hx, hread⟩ := bind_eq_ok hread
    obtain ⟨y, hy, heq⟩ := map_eq_ok hread
    cases heq
    obtain ⟨gap, text, hgap, hbytes, htext⟩ := h.found hx
    exact ⟨gap, text, hgap, hbytes, x, htext, hy⟩

theorem word_eq_ok_iff {cs bytes rest : Bytes} : word cs bytes = .ok rest ↔ bytes = cs ++ rest := by
  constructor
  · intro h
    induction cs generalizing bytes with
    | nil =>
        cases h
        rfl
    | cons c cs ih =>
        cases bytes with
        | nil => cases h
        | cons b bytes =>
            rw [word] at h
            split at h
            next hb => rw [ih h, hb, List.cons_append]
            · cases h
  · rintro rfl
    exact word_append cs rest

def ArrayRest (P : Bytes → α → Prop) (text : Bytes) (xs : List α) : Prop :=
  ∃ inner items, text = inner ++ [']'.toUInt8] ∧ Items Eq inner items ∧ List.Forall₂ P items xs

theorem closed_tail {ι : Type} {item : Bytes → ι → Prop} {inner : Bytes} {items : List ι}
    (h : Tail item inner items) {rest : Bytes} (hrest : Closed rest) : Closed (inner ++ rest) := by
  cases h with
  | nil hgap => exact hgap.closed hrest
  | cons hgap _ _ _ =>
      rw [List.append_assoc]
      exact hgap.closed ⟨rfl, by decide, rfl⟩

theorem length_le_tail {ι : Type} {item : Bytes → ι → Prop} {inner : Bytes} {items : List ι}
    (h : Tail item inner items) : items.length ≤ inner.length := by
  induction h with
  | nil => simp
  | cons _ _ _ _ ih =>
      simp only [List.length_append, List.length_cons]
      omega

theorem elementsFrom_tail {item : Bytes → Step α} (h : Parses item P) {inner : Bytes}
    {items : List Bytes} (htail : Tail Eq inner items) {xs : List α}
    (hxs : List.Forall₂ P items xs) (bound : Bytes) (done : List α) (rest : Bytes)
    (hdone : done ≠ []) (hbound : items.length < bound.length) :
    elementsFrom item bound done (inner ++ ']'.toUInt8 :: rest) =
      .ok (done.reverse ++ xs, rest) := by
  induction htail generalizing bound done xs with
  | nil hgap =>
      cases hxs
      cases bound with
      | nil => simp at hbound
      | cons y bound =>
          rw [elementsFrom, hgap.skip, skipBlank_cons (b := ']'.toUInt8) rfl]
          simp
  | @cons gap gap' text more _ items hgap hgap' heq htail ih =>
      subst heq
      cases hxs with
      | @cons _ x _ xs hx hxs =>
          cases bound with
          | nil => simp at hbound
          | cons y bound =>
              have hrest : Closed (more ++ ']'.toUInt8 :: rest) :=
                closed_tail htail (closed_bracket rest)
              have hnext := ih hxs bound (x :: done) (by simp) (by simpa using hbound)
              have hread := h.takes hx Blank.nil hrest
              have hne : ','.toUInt8 ≠ ']'.toUInt8 := by decide
              have hbytes : gap ++ ','.toUInt8 :: (gap' ++ (text ++ more)) ++ ']'.toUInt8 :: rest =
                  gap ++ (','.toUInt8 :: (gap' ++ (text ++ (more ++ ']'.toUInt8 :: rest)))) := by
                simp
              have hstart := h.starts hx
              rw [hbytes, elementsFrom, hgap.skip, skipBlank_cons (b := ','.toUInt8) rfl]
              simp only [if_neg hne, List.isEmpty_iff, hdone, if_false, if_true, hgap'.skip,
                skipBlank_starts hstart]
              cases text with
              | nil => exact hstart.elim
              | cons b text =>
                  rw [List.nil_append, List.cons_append] at hread
                  simp only [List.cons_append, if_neg hstart.2.1, hread, hnext,
                    List.reverse_cons, List.append_assoc, List.nil_append]

theorem tail_of_elementsFrom {item : Bytes → Step α} (h : Parses item P) {bound : Bytes}
    {done xs : List α} {bytes rest : Bytes}
    (hread : elementsFrom item bound done bytes = .ok (xs, rest)) (hdone : done ≠ []) :
    ∃ inner items ys, bytes = inner ++ ']'.toUInt8 :: rest ∧ Tail Eq inner items ∧
      List.Forall₂ P items ys ∧ xs = done.reverse ++ ys := by
  induction bound generalizing done bytes with
  | nil => cases hread
  | cons y bound ih =>
      rw [elementsFrom] at hread
      split at hread
      · cases hread
      next b tail hskip =>
        obtain ⟨gap, hgap, rfl⟩ := exists_blank_of_skip hskip
        split at hread
        next hb =>
          cases hread
          exact ⟨gap, [], [], by rw [hb], .nil hgap, .nil, by simp⟩
        · simp only [List.isEmpty_iff, hdone, if_false] at hread
          split at hread
          · cases hread
          next start hstart =>
            split at hstart
            next hcomma =>
              split at hstart
              · cases hstart
              next c after hafter =>
                obtain ⟨gap', hgap', rfl⟩ := exists_blank_of_skip hafter
                split at hstart <;> cases hstart
                split at hread
                · cases hread
                next x left hx =>
                  obtain ⟨gap'', text, hgap'', hbytes, htext⟩ := h.found hx
                  obtain ⟨inner, items, ys, rfl, htail, hys, rfl⟩ := ih hread (by simp)
                  refine ⟨gap ++ ','.toUInt8 :: ((gap' ++ gap'') ++ (text ++ inner)), text :: items,
                    x :: ys, by simp [hcomma, hbytes],
                    .cons hgap (hgap'.append hgap'') rfl htail, .cons htext hys, by simp⟩
            · cases hstart

theorem exact_elements {item : Bytes → Step α} (h : Parses item P) :
    Exact (elements item) (ArrayRest P) := by
  intro bytes xs rest
  constructor
  · intro hread
    cases bytes with
    | nil => cases hread
    | cons y bytes =>
        rw [elements, elementsFrom] at hread
        split at hread
        · cases hread
        next b tail hskip =>
          obtain ⟨gap, hgap, hbytes⟩ := exists_blank_of_skip hskip
          rw [hbytes]
          split at hread
          next hb =>
            cases hread
            exact ⟨gap ++ [']'.toUInt8], by simp [hb], gap, [], rfl, .none hgap, .nil⟩
          · simp only [List.isEmpty_nil, if_true] at hread
            split at hread
            · cases hread
            next x left hx =>
              obtain ⟨gap', text, hgap', hfound, htext⟩ := h.found hx
              obtain ⟨inner, items, ys, rfl, htail, hys, rfl⟩ :=
                tail_of_elementsFrom h hread (by simp)
              refine ⟨(gap ++ gap') ++ (text ++ inner) ++ [']'.toUInt8], by simp [hfound], _,
                text :: items, rfl, .some (hgap.append hgap') rfl htail, .cons htext hys⟩
  · rintro ⟨_, rfl, inner, items, rfl, hinner, hxs⟩
    rw [List.append_assoc, List.singleton_append, elements]
    cases hinner with
    | none hgap =>
        cases hxs
        cases hbytes : inner ++ ']'.toUInt8 :: rest with
        | nil => simp at hbytes
        | cons y bytes =>
            rw [elementsFrom, ← hbytes, hgap.skip, skipBlank_cons (b := ']'.toUInt8) rfl]
            rfl
    | @some gap text more _ items hgap heq htail =>
        subst heq
        cases hxs with
        | @cons _ x _ xs hx hxs =>
            have hstart := h.starts hx
            have hrest : Closed (more ++ ']'.toUInt8 :: rest) :=
              closed_tail htail (closed_bracket rest)
            have hread := h.takes hx Blank.nil hrest
            have hlength := length_le_tail htail
            have hassoc : gap ++ (text ++ more) ++ ']'.toUInt8 :: rest =
                gap ++ (text ++ (more ++ ']'.toUInt8 :: rest)) := by simp
            rw [hassoc]
            cases hbytes : gap ++ (text ++ (more ++ ']'.toUInt8 :: rest)) with
            | nil => simp at hbytes
            | cons y bytes =>
                have hbound : items.length < bytes.length := by
                  have hsum := congrArg List.length hbytes
                  cases text with
                  | nil => exact hstart.elim
                  | cons b text =>
                      simp only [List.length_append, List.length_cons] at hsum
                      omega
                have hnext := elementsFrom_tail h htail hxs bytes [x] rest (by simp) hbound
                rw [elementsFrom, ← hbytes, hgap.skip, skipBlank_starts hstart]
                cases text with
                | nil => exact hstart.elim
                | cons b text =>
                    rw [List.nil_append, List.cons_append] at hread
                    simp only [List.cons_append, if_neg hstart.2.1, List.isEmpty_nil, if_true,
                      hread, hnext, List.reverse_cons, List.reverse_nil, List.nil_append]

end

section

variable {σ : Type} {step : String → σ → Bytes → σ → Prop}

structure MemberParses (member : String → σ → Bytes → Step σ)
    (step : String → σ → Bytes → σ → Prop) : Prop where
  takes {name : String} {s t : σ} {text gap gap' rest : Bytes} :
    step name s text t → Blank gap → Blank gap' → Closed rest →
      member name s (gap ++ ':'.toUInt8 :: (gap' ++ (text ++ rest))) = .ok (t, rest)
  found {name : String} {s t : σ} {bytes rest : Bytes} :
    member name s bytes = .ok (t, rest) → ∃ gap gap' text, Blank gap ∧ Blank gap' ∧
      bytes = gap ++ ':'.toUInt8 :: (gap' ++ (text ++ rest)) ∧ step name s text t

inductive Runs (step : String → σ → Bytes → σ → Prop) : σ → List (String × Bytes) → σ → Prop
  | nil (s : σ) : Runs step s [] s
  | cons {s t u : σ} {name : String} {text : Bytes} {ms : List (String × Bytes)} :
      step name s text t → Runs step t ms u → Runs step s ((name, text) :: ms) u

theorem colon_eq_ok_iff {bytes rest : Bytes} :
    colon bytes = .ok rest ↔ ∃ gap, Blank gap ∧ bytes = gap ++ ':'.toUInt8 :: rest := by
  rw [← skipBlank_eq_cons_iff rfl, colon]
  cases skipBlank bytes with
  | nil => simp
  | cons b tail => by_cases hb : b = ':'.toUInt8 <;> simp [hb]

theorem inQuotes_append (body gap gap' value rest : Bytes) :
    inQuotes body ++ (gap ++ ':'.toUInt8 :: (gap' ++ value)) ++ rest =
      '"'.toUInt8 :: (body ++ ['"'.toUInt8] ++
        (gap ++ ':'.toUInt8 :: (gap' ++ (value ++ rest)))) := by
  simp [inQuotes]

theorem stringBody_text {body : Bytes} {s : String} (h : Spells body (Bytes.ofText s))
    (rest : Bytes) : stringBody (body ++ ['"'.toUInt8] ++ rest) = .ok (s, rest) :=
  (exact_stringBody _ _ _).mpr ⟨_, rfl, body, rfl, h⟩

def ObjectRest (step : String → σ → Bytes → σ → Prop) (start : σ) (text : Bytes) (t : σ) : Prop :=
  ∃ inner ms, text = inner ++ ['\x7d'.toUInt8] ∧ Items (MemberText StringText) inner ms ∧
    Runs step start ms t

theorem membersFrom_tail {member : String → σ → Bytes → Step σ} (h : MemberParses member step)
    {inner : Bytes} {ms : List (String × Bytes)}
    (htail : Tail (MemberText StringText) inner ms) {s u : σ} (hruns : Runs step s ms u)
    (bound rest : Bytes) (hbound : ms.length < bound.length) :
    membersFrom member bound false s (inner ++ '\x7d'.toUInt8 :: rest) = .ok (u, rest) := by
  induction htail generalizing bound s with
  | nil hgap =>
      cases hruns
      cases bound with
      | nil => simp at hbound
      | cons y bound =>
          rw [membersFrom, hgap.skip, skipBlank_cons (b := '\x7d'.toUInt8) rfl]
          simp
  | @cons gap gap' text more _ ms hgap hgap' hmember htail ih =>
      obtain ⟨⟨body, rfl, hspells⟩, hbefore, hafter⟩ := hmember
      cases hruns with
      | @cons _ t _ _ _ _ hstep hruns =>
          cases bound with
          | nil => simp at hbound
          | cons y bound =>
              have hrest : Closed (more ++ '\x7d'.toUInt8 :: rest) :=
                closed_tail htail (closed_brace rest)
              have hnext := ih hruns bound (by simpa using hbound)
              have hread := h.takes hstep hbefore hafter hrest
              have hne : ','.toUInt8 ≠ '\x7d'.toUInt8 := by decide
              have hquote : '"'.toUInt8 ≠ '\x7d'.toUInt8 := by decide
              rw [List.append_assoc, membersFrom, hgap.skip, List.cons_append,
                skipBlank_cons (b := ','.toUInt8) rfl, List.append_assoc gap',
                List.append_assoc (inQuotes body ++ _), inQuotes_append]
              simp only [if_neg hne, Bool.false_eq_true, if_false, if_true, hgap'.skip,
                skipBlank_cons (b := '"'.toUInt8) rfl, if_neg hquote, stringBody_text hspells,
                hread, hnext]

theorem tail_of_membersFrom {member : String → σ → Bytes → Step σ} (h : MemberParses member step)
    {bound : Bytes} {s u : σ} {bytes rest : Bytes}
    (hread : membersFrom member bound false s bytes = .ok (u, rest)) :
    ∃ inner ms, bytes = inner ++ '\x7d'.toUInt8 :: rest ∧
      Tail (MemberText StringText) inner ms ∧ Runs step s ms u := by
  induction bound generalizing s bytes with
  | nil => cases hread
  | cons y bound ih =>
      rw [membersFrom] at hread
      split at hread
      · cases hread
      next b tail hskip =>
        obtain ⟨gap, hgap, rfl⟩ := exists_blank_of_skip hskip
        split at hread
        next hb =>
          cases hread
          exact ⟨gap, [], by rw [hb], .nil hgap, .nil _⟩
        · simp only [Bool.false_eq_true, if_false] at hread
          split at hread
          · cases hread
          · cases hread
          next q after hstart =>
            split at hstart
            next hcomma =>
              split at hstart
              · cases hstart
              next c after' hafter =>
                obtain ⟨gap', hgap', rfl⟩ := exists_blank_of_skip hafter
                split at hstart <;> cases hstart
                split at hread
                next hquote =>
                  split at hread
                  · cases hread
                  next name left hname =>
                    obtain ⟨_, rfl, body, rfl, hspells⟩ := (exact_stringBody _ _ _).mp hname
                    split at hread
                    · cases hread
                    next t left' ht =>
                      obtain ⟨before, behind, text, hbefore, hbehind, rfl, hstep⟩ := h.found ht
                      obtain ⟨inner, ms, rfl, htail, hruns⟩ := ih hread
                      exact ⟨_, (name, text) :: ms, by simp [hcomma, hquote, inQuotes],
                        .cons hgap hgap' (.mk ⟨body, rfl, hspells⟩ hbefore hbehind) htail,
                        .cons hstep hruns⟩
                · cases hread
            · cases hstart

theorem exact_members {member : String → σ → Bytes → Step σ} (h : MemberParses member step)
    (start : σ) : Exact (members member start) (ObjectRest step start) := by
  intro bytes u rest
  constructor
  · intro hread
    cases bytes with
    | nil => cases hread
    | cons y bytes =>
        rw [members, membersFrom] at hread
        split at hread
        · cases hread
        next b tail hskip =>
          obtain ⟨gap, hgap, hbytes⟩ := exists_blank_of_skip hskip
          rw [hbytes]
          split at hread
          next hb =>
            cases hread
            exact ⟨gap ++ ['\x7d'.toUInt8], by simp [hb], gap, [], rfl, .none hgap, .nil _⟩
          · simp only [if_true] at hread
            split at hread
            next hquote =>
              split at hread
              · cases hread
              next name left hname =>
                obtain ⟨_, rfl, body, rfl, hspells⟩ := (exact_stringBody _ _ _).mp hname
                split at hread
                · cases hread
                next t left' ht =>
                  obtain ⟨before, behind, text, hbefore, hbehind, rfl, hstep⟩ := h.found ht
                  obtain ⟨inner, ms, rfl, htail, hruns⟩ := tail_of_membersFrom h hread
                  exact ⟨_ ++ ['\x7d'.toUInt8], by simp [hquote, inQuotes], _,
                    (name, text) :: ms, rfl,
                    .some hgap (.mk ⟨body, rfl, hspells⟩ hbefore hbehind) htail,
                    .cons hstep hruns⟩
            · cases hread
  · rintro ⟨_, rfl, inner, ms, rfl, hinner, hruns⟩
    rw [List.append_assoc, List.singleton_append, members]
    cases hinner with
    | none hgap =>
        cases hruns
        cases hbytes : inner ++ '\x7d'.toUInt8 :: rest with
        | nil => simp at hbytes
        | cons y bytes =>
            rw [membersFrom, ← hbytes, hgap.skip, skipBlank_cons (b := '\x7d'.toUInt8) rfl]
            rfl
    | @some gap text more _ ms hgap hmember htail =>
        obtain ⟨⟨body, rfl, hspells⟩, hbefore, hafter⟩ := hmember
        cases hruns with
        | @cons _ t _ name value _ hstep hruns =>
            have hrest : Closed (more ++ '\x7d'.toUInt8 :: rest) :=
              closed_tail htail (closed_brace rest)
            have hread := h.takes hstep hbefore hafter hrest
            have hlength := length_le_tail htail
            have hquote : '"'.toUInt8 ≠ '\x7d'.toUInt8 := by decide
            rw [List.append_assoc, List.append_assoc (inQuotes body ++ _), inQuotes_append]
            cases hbytes : gap ++ '"'.toUInt8 :: (body ++ ['"'.toUInt8] ++ _) with
            | nil => simp at hbytes
            | cons y bytes =>
                have hbound : ms.length < bytes.length := by
                  have hsum := congrArg List.length hbytes
                  simp only [List.length_append, List.length_cons] at hsum
                  omega
                rw [membersFrom, ← hbytes, hgap.skip, skipBlank_cons (b := '"'.toUInt8) rfl]
                simp only [if_neg hquote, if_true, stringBody_text hspells, hread]
                exact membersFrom_tail h htail hruns bytes rest hbound

end

end JoseTokens.Json
