import JoseTokens.Proofs.Json.Meaning

namespace JoseTokens.Json

def KeyForm (key body : Bytes) : Prop :=
  key = inQuotes body ∧ StringForm body

theorem Formed.starts {text : Bytes} (h : Formed text) : Starts text := by
  cases h with
  | null => exact ⟨rfl, by decide, by decide⟩
  | true => exact ⟨rfl, by decide, by decide⟩
  | false => exact ⟨rfl, by decide, by decide⟩
  | number hn => exact Numeral.starts hn
  | string _ => exact ⟨rfl, by decide, by decide⟩
  | array htext _ => exact starts_arrayText htext
  | object htext _ => exact starts_objectOf htext

section

variable {item : Bytes → Except ReadError Bytes}
  (hitem : ∀ {bytes rest}, item bytes = .ok rest →
    ∃ gap text, Blank gap ∧ bytes = gap ++ (text ++ rest) ∧ Formed text)

include hitem

theorem items_of_skipElements {fuel : Nat} {bytes rest : Bytes}
    (h : skipElements item fuel bytes = .ok rest) :
    ∃ gap text more items, Blank gap ∧ bytes = gap ++ (text ++ (more ++ ']'.toUInt8 :: rest)) ∧
      Tail Eq more items ∧ ∀ t ∈ text :: items, Formed t := by
  induction fuel generalizing bytes with
  | zero => cases h
  | succ fuel ih =>
      rw [skipElements] at h
      split at h
      · cases h
      next left hfirst =>
        obtain ⟨gap, text, hgap, rfl, htext⟩ := hitem hfirst
        split at h
        · cases h
        next b tail hskip =>
          obtain ⟨gap', hgap', rfl⟩ := exists_blank_of_skip hskip
          split at h
          next hb =>
            cases h
            exact ⟨gap, text, gap', [], hgap, by rw [hb], .nil hgap', by simpa using htext⟩
          · split at h
            next hcomma =>
              obtain ⟨behind, next, more, items, hbehind, rfl, htail, hall⟩ := ih h
              exact ⟨gap, text, gap' ++ ','.toUInt8 :: (behind ++ (next ++ more)), next :: items,
                hgap, by simp [hcomma], .cons hgap' hbehind rfl htail,
                List.forall_mem_cons.mpr ⟨htext, hall⟩⟩
            · cases h

theorem items_of_skipMembers {fuel : Nat} {bytes rest : Bytes}
    (h : skipMembers item fuel bytes = .ok rest) :
    ∃ gap text m more ms, Blank gap ∧
      bytes = gap ++ (text ++ (more ++ '\x7d'.toUInt8 :: rest)) ∧ MemberText KeyForm text m ∧
      Tail (MemberText KeyForm) more ms ∧ ∀ n ∈ m :: ms, Formed n.2 := by
  induction fuel generalizing bytes with
  | zero => cases h
  | succ fuel ih =>
      rw [skipMembers] at h
      split at h
      · cases h
      next q tail hskip =>
        obtain ⟨gap, hgap, rfl⟩ := exists_blank_of_skip hskip
        split at h
        · cases h
        next hquote =>
          obtain rfl := not_not.mp hquote
          split at h
          · cases h
          next left hread =>
            obtain ⟨afterColon, hread, hvalue⟩ := bind_eq_ok hread
            obtain ⟨afterKey, hkey, hcolon⟩ := bind_eq_ok hread
            obtain ⟨body, rfl, hbody⟩ := form_of_skipString hkey
            obtain ⟨before, hbefore, rfl⟩ := colon_eq_ok_iff.mp hcolon
            obtain ⟨behind, value, hbehind, rfl, hformed⟩ := hitem hvalue
            have hmember : MemberText KeyForm
                (inQuotes body ++ (before ++ ':'.toUInt8 :: (behind ++ value))) (body, value) :=
              .mk ⟨rfl, hbody⟩ hbefore hbehind
            split at h
            · cases h
            next b tail hskip =>
              obtain ⟨gap', hgap', rfl⟩ := exists_blank_of_skip hskip
              split at h
              next hb =>
                cases h
                exact ⟨gap, _, (body, value), gap', [], hgap, by simp [hb, inQuotes], hmember,
                  .nil hgap', by simpa using hformed⟩
              · split at h
                next hcomma =>
                  obtain ⟨after, text, m, more, ms, hafter, rfl, htext, htail, hall⟩ := ih h
                  exact ⟨gap, _, (body, value), gap' ++ ','.toUInt8 :: (after ++ (text ++ more)),
                    m :: ms, hgap, by simp [hcomma, inQuotes], hmember,
                    .cons hgap' hafter htext htail,
                    List.forall_mem_cons.mpr ⟨hformed, hall⟩⟩
                · cases h

end

theorem formed_of_skip_of {size : Nat}
    (hitem : ∀ n, size = n + 1 → ∀ {bytes rest}, skipWithin n bytes = .ok rest →
      ∃ gap text, Blank gap ∧ bytes = gap ++ (text ++ rest) ∧ Formed text)
    {bytes rest : Bytes} (h : skipWithin size bytes = .ok rest) :
    ∃ gap text, Blank gap ∧ bytes = gap ++ (text ++ rest) ∧ Formed text := by
  rw [skipWithin] at h
  split at h
  · cases h
  next b tail hskip =>
    obtain ⟨gap, hgap, rfl⟩ := exists_blank_of_skip hskip
    suffices hfound : ∃ text, b :: tail = text ++ rest ∧ Formed text by
      obtain ⟨text, htext, hformed⟩ := hfound
      exact ⟨gap, text, hgap, by rw [htext], hformed⟩
    split at h
    next hletter => exact ⟨_, by rw [hletter, word_eq_ok_iff.mp h]; rfl, .null⟩
    split at h
    next hletter => exact ⟨_, by rw [hletter, word_eq_ok_iff.mp h]; rfl, .true⟩
    split at h
    next hletter => exact ⟨_, by rw [hletter, word_eq_ok_iff.mp h]; rfl, .false⟩
    split at h
    next hminus =>
      obtain ⟨n, hnegative, hn, rfl, _⟩ := Numeral.exists_of_skipNumber true h
      exact ⟨n.text, by rw [Numeral.text, if_pos hnegative, hminus]; rfl, .number hn⟩
    split at h
    next hdigit =>
      obtain ⟨n, hnegative, hn, htext, _⟩ := Numeral.exists_of_skipNumber false h
      exact ⟨n.text, by rw [Numeral.text, hnegative, if_neg Bool.false_ne_true, htext],
        .number hn⟩
    split at h
    next hquote =>
      obtain ⟨body, rfl, hbody⟩ := form_of_skipString h
      exact ⟨inQuotes body, by rw [hquote]; simp [inQuotes], .string hbody⟩
    split at h
    next hbracket =>
      cases size with
      | zero => cases h
      | succ size =>
          simp only at h
          split at h
          · cases h
          next c after hfirst =>
            obtain ⟨gap', hgap', rfl⟩ := exists_blank_of_skip hfirst
            split at h
            next hc =>
              cases h
              exact ⟨b :: (gap' ++ [']'.toUInt8]), by simp [hc],
                .array ⟨gap', by rw [hbracket], .none hgap'⟩ (by simp)⟩
            next hc =>
              obtain ⟨before, text, more, items, hbefore, htext, htail, hall⟩ :=
                items_of_skipElements (hitem size rfl) h
              exact ⟨b :: ((gap' ++ before) ++ (text ++ more) ++ [']'.toUInt8]), by simp [htext],
                .array ⟨_, by rw [hbracket], .some (hgap'.append hbefore) rfl htail⟩ hall⟩
    split at h
    next hbrace =>
      cases size with
      | zero => cases h
      | succ size =>
          simp only at h
          split at h
          · cases h
          next c after hfirst =>
            obtain ⟨gap', hgap', rfl⟩ := exists_blank_of_skip hfirst
            split at h
            next hc =>
              cases h
              exact ⟨b :: (gap' ++ ['\x7d'.toUInt8]), by simp [hc],
                .object ⟨gap', by rw [hbrace], .none hgap'⟩ (by simp)⟩
            next hc =>
              obtain ⟨before, text, m, more, ms, hbefore, htext, hmember, htail, hall⟩ :=
                items_of_skipMembers (hitem size rfl) h
              exact ⟨b :: ((gap' ++ before) ++ (text ++ more) ++ ['\x7d'.toUInt8]),
                by simp [htext],
                .object ⟨_, by rw [hbrace], .some (hgap'.append hbefore) hmember htail⟩ hall⟩
    · cases h

theorem formed_of_skipWithin {size : Nat} {bytes rest : Bytes}
    (h : skipWithin size bytes = .ok rest) :
    ∃ gap text, Blank gap ∧ bytes = gap ++ (text ++ rest) ∧ Formed text := by
  induction size generalizing bytes rest with
  | zero => exact formed_of_skip_of (fun n hn => absurd hn (Nat.succ_ne_zero n).symm) h
  | succ size ih =>
      refine formed_of_skip_of (fun n hn => ?_) h
      obtain rfl := Nat.succ.inj hn
      exact ih

def Passes (item : Bytes → Except ReadError Bytes) (text : Bytes) : Prop :=
  ∀ {gap rest : Bytes}, Blank gap → Closed rest → item (gap ++ (text ++ rest)) = .ok rest

section

variable {item : Bytes → Except ReadError Bytes}

theorem skipElements_tail {more : Bytes} {items : List Bytes} (htail : Tail Eq more items)
    {text gap : Bytes} (hgap : Blank gap) (hpasses : ∀ t ∈ text :: items, Passes item t)
    (fuel : Nat) (rest : Bytes) (hfuel : items.length < fuel) :
    skipElements item fuel (gap ++ (text ++ (more ++ ']'.toUInt8 :: rest))) = .ok rest := by
  induction htail generalizing text gap fuel with
  | @nil gap' hgap' =>
      cases fuel with
      | zero => cases hfuel
      | succ fuel =>
          have hrest : Closed (gap' ++ ']'.toUInt8 :: rest) := hgap'.closed (closed_bracket rest)
          rw [skipElements, hpasses text List.mem_cons_self hgap hrest]
          simp only [hgap'.skip, skipBlank_cons (b := ']'.toUInt8) rfl, if_true]
  | @cons gap' behind next more _ items hgap' hbehind heq htail ih =>
      subst heq
      cases fuel with
      | zero => cases hfuel
      | succ fuel =>
          have hclosed : Closed (gap' ++ ','.toUInt8 :: (behind ++ (next ++ more)) ++
              ']'.toUInt8 :: rest) := by
            rw [List.append_assoc]
            exact hgap'.closed ⟨rfl, by decide, rfl⟩
          have hne : ','.toUInt8 ≠ ']'.toUInt8 := by decide
          have hnext := ih hbehind (fun t ht => hpasses t (List.mem_cons_of_mem _ ht)) fuel
            (by simpa using hfuel)
          rw [skipElements, hpasses text List.mem_cons_self hgap hclosed]
          simp only [List.append_assoc, List.cons_append, hgap'.skip,
            skipBlank_cons (b := ','.toUInt8) rfl, if_neg hne, if_true]
          exact hnext

theorem skipMembers_member {text : Bytes} {m : Bytes × Bytes} (hmember : MemberText KeyForm text m)
    {gap : Bytes} (hgap : Blank gap) (hpasses : Passes item m.2) {fuel : Nat}
    (hfuel : text.length ≤ fuel + 1) {rest : Bytes} (hrest : Closed rest) :
    skipMembers item (fuel + 1) (gap ++ (text ++ rest)) =
      match skipBlank rest with
      | [] => .error .endOfObject
      | b :: rest =>
          if b = '\x7d'.toUInt8 then .ok rest
          else if b = ','.toUInt8 then skipMembers item fuel rest
          else .error .expectedCommaOrBrace := by
  cases hmember with
  | @mk key before behind value body hkey hbefore hbehind =>
      obtain ⟨rfl, hbody⟩ := hkey
      have hlength : body.length < fuel := by
        simp only [inQuotes, List.length_append, List.length_cons] at hfuel
        omega
      have hkey := skipString_of_form hbody fuel
        (before ++ ':'.toUInt8 :: (behind ++ (value ++ rest))) hlength
      have hcolon : colon (before ++ ':'.toUInt8 :: (behind ++ (value ++ rest))) =
          .ok (behind ++ (value ++ rest)) := colon_eq_ok_iff.mpr ⟨before, hbefore, rfl⟩
      have hread : (skipString fuel (body ++ '"'.toUInt8 ::
          (before ++ ':'.toUInt8 :: (behind ++ (value ++ rest)))) >>= colon >>= item) =
            .ok rest := by
        rw [hkey]
        exact (congrArg (fun x => x >>= item) hcolon).trans (hpasses hbehind hrest)
      rw [inQuotes_append, skipMembers, hgap.skip, skipBlank_cons (b := '"'.toUInt8) rfl]
      cases hafter : skipBlank rest <;>
        simp only [ne_eq, not_true_eq_false, if_false, List.append_assoc, List.singleton_append,
          hread, hafter]

theorem skipMembers_tail {more : Bytes} {ms : List (Bytes × Bytes)}
    (htail : Tail (MemberText KeyForm) more ms) {text gap : Bytes} {m : Bytes × Bytes}
    (hmember : MemberText KeyForm text m) (hgap : Blank gap)
    (hpasses : ∀ n ∈ m :: ms, Passes item n.2) (fuel : Nat) (rest : Bytes)
    (hfuel : text.length + more.length ≤ fuel + 1) :
    skipMembers item (fuel + 1) (gap ++ (text ++ (more ++ '\x7d'.toUInt8 :: rest))) = .ok rest := by
  -- The fuel is enough for every key that is still to come, as keys stand in the rest of the text.
  induction htail generalizing text gap m fuel with
  | @nil gap' hgap' =>
      rw [skipMembers_member hmember hgap (hpasses m List.mem_cons_self) (by omega)
        (hgap'.closed (closed_brace rest)), hgap'.skip, skipBlank_cons (b := '\x7d'.toUInt8) rfl]
      simp only [if_true]
  | @cons gap' behind next more n ms hgap' hbehind hnext htail ih =>
      have hclosed : Closed (gap' ++ ','.toUInt8 :: (behind ++ (next ++ more)) ++
          '\x7d'.toUInt8 :: rest) := by
        rw [List.append_assoc]
        exact hgap'.closed ⟨rfl, by decide, rfl⟩
      have hne : ','.toUInt8 ≠ '\x7d'.toUInt8 := by decide
      simp only [List.length_append, List.length_cons] at hfuel
      have hkey : 0 < text.length := by
        obtain ⟨⟨rfl, _⟩, _, _⟩ := hmember
        simp [inQuotes]
      rw [skipMembers_member hmember hgap (hpasses m List.mem_cons_self) (by omega) hclosed,
        List.append_assoc, hgap'.skip, List.cons_append, skipBlank_cons (b := ','.toUInt8) rfl]
      simp only [if_neg hne, if_true, List.append_assoc]
      cases fuel with
      | zero => omega
      | succ fuel =>
          exact ih hnext hbehind (fun k hk => hpasses k (List.mem_cons_of_mem _ hk)) fuel
            (by omega)

theorem skipElements_items {inner : Bytes} {items : List Bytes} (hinner : Items Eq inner items)
    (hstarts : ∀ t ∈ items, Starts t) (hpasses : ∀ t ∈ items, Passes item t) (fuel : Nat)
    (rest : Bytes) (hfuel : inner.length ≤ fuel) :
    (match skipBlank (inner ++ ']'.toUInt8 :: rest) with
      | [] => .error .endOfList
      | c :: rest =>
          if c = ']'.toUInt8 then .ok rest
          else skipElements item fuel (c :: rest) : Except ReadError Bytes) = .ok rest := by
  cases hinner with
  | none hgap =>
      rw [hgap.skip, skipBlank_cons (b := ']'.toUInt8) rfl]
      simp only [if_true]
  | @some gap text more _ items hgap heq htail =>
      subst heq
      have hstart := hstarts text List.mem_cons_self
      have hcount : items.length < fuel := by
        have hlength := length_le_tail htail
        have hpos : 0 < text.length := List.length_pos_of_ne_nil fun h => by
          simp [h, Starts] at hstart
        simp only [List.length_append] at hfuel
        omega
      have hskip := skipElements_tail htail Blank.nil hpasses fuel rest hcount
      rw [List.append_assoc, hgap.skip, List.append_assoc, skipBlank_starts hstart]
      cases text with
      | nil => exact hstart.elim
      | cons c text =>
          simp only [List.cons_append, if_neg hstart.2.1]
          exact hskip

theorem skipMembers_items {inner : Bytes} {ms : List (Bytes × Bytes)}
    (hinner : Items (MemberText KeyForm) inner ms) (hpasses : ∀ m ∈ ms, Passes item m.2)
    (fuel : Nat) (rest : Bytes) (hfuel : inner.length ≤ fuel + 1) :
    (match skipBlank (inner ++ '\x7d'.toUInt8 :: rest) with
      | [] => .error .endOfObject
      | c :: rest =>
          if c = '\x7d'.toUInt8 then .ok rest
          else skipMembers item (fuel + 1) (c :: rest) : Except ReadError Bytes) = .ok rest := by
  cases hinner with
  | none hgap =>
      rw [hgap.skip, skipBlank_cons (b := '\x7d'.toUInt8) rfl]
      simp only [if_true]
  | @some gap text more m ms hgap hmember htail =>
      have hshort : text.length + more.length ≤ fuel + 1 := by
        simp only [List.length_append] at hfuel
        omega
      have hskip := skipMembers_tail htail hmember Blank.nil hpasses fuel rest hshort
      have hquote : '"'.toUInt8 ≠ '\x7d'.toUInt8 := by decide
      have hstart : ∃ tail, text ++ more = '"'.toUInt8 :: tail := by
        obtain ⟨⟨rfl, _⟩, _, _⟩ := hmember
        exact ⟨_, rfl⟩
      obtain ⟨tail, htext⟩ := hstart
      rw [List.nil_append, ← List.append_assoc, htext, List.cons_append] at hskip
      rw [List.append_assoc, hgap.skip, htext, List.cons_append,
        skipBlank_cons (b := '"'.toUInt8) rfl]
      simp only [if_neg hquote]
      exact hskip

end

theorem skipWithin_bracket (size : Nat) (rest : Bytes) :
    skipWithin (size + 1) ('['.toUInt8 :: rest) =
      match skipBlank rest with
      | [] => .error .endOfList
      | c :: rest =>
          if c = ']'.toUInt8 then .ok rest
          else skipElements (skipWithin size) size (c :: rest) :=
  rfl

theorem skipWithin_brace (size : Nat) (rest : Bytes) :
    skipWithin (size + 1) ('\x7b'.toUInt8 :: rest) =
      match skipBlank rest with
      | [] => .error .endOfObject
      | c :: rest =>
          if c = '\x7d'.toUInt8 then .ok rest
          else skipMembers (skipWithin size) size (c :: rest) :=
  rfl

theorem skipWithin_n (size : Nat) (rest : Bytes) :
    skipWithin size ('n'.toUInt8 :: rest) = word (Bytes.ofText "ull") rest := by
  cases size <;> rfl

theorem skipWithin_t (size : Nat) (rest : Bytes) :
    skipWithin size ('t'.toUInt8 :: rest) = word (Bytes.ofText "rue") rest := by
  cases size <;> rfl

theorem skipWithin_f (size : Nat) (rest : Bytes) :
    skipWithin size ('f'.toUInt8 :: rest) = word (Bytes.ofText "alse") rest := by
  cases size <;> rfl

theorem skipWithin_minus (size : Nat) (rest : Bytes) :
    skipWithin size ('-'.toUInt8 :: rest) = skipNumber rest := by
  cases size <;> rfl

theorem skipWithin_quote (size : Nat) (rest : Bytes) :
    skipWithin size ('"'.toUInt8 :: rest) = skipString size rest := by
  cases size <;> rfl

theorem skipWithin_digit {b : UInt8} (hb : isDigit b = true) (size : Nat) (rest : Bytes) :
    skipWithin size (b :: rest) = skipNumber (b :: rest) := by
  have hn : b ≠ 'n'.toUInt8 := digit_ne hb rfl
  have ht : b ≠ 't'.toUInt8 := digit_ne hb rfl
  have hf : b ≠ 'f'.toUInt8 := digit_ne hb rfl
  have hminus : b ≠ '-'.toUInt8 := digit_ne hb rfl
  rw [skipWithin, skipBlank_cons (isBlank_digit hb)]
  simp only [if_neg hn, if_neg ht, if_neg hf, if_neg hminus, hb, if_true]

theorem skipWithin_blank {gap : Bytes} (h : Blank gap) (size : Nat) (bytes : Bytes) :
    skipWithin size (gap ++ bytes) = skipWithin size bytes := by
  rw [skipWithin, skipWithin, h.skip]

theorem le_length_of_items {ι : Type} {item : Bytes → ι → Prop} {f : ι → Nat}
    (hf : ∀ {text x}, item text x → f x ≤ text.length) {inner : Bytes} {xs : List ι}
    (h : Items item inner xs) : ∀ x ∈ xs, f x ≤ inner.length := by
  have htail {more : Bytes} {ys : List ι} (h : Tail item more ys) :
      ∀ y ∈ ys, f y ≤ more.length := by
    induction h with
    | nil => simp
    | cons _ _ hitem _ ih =>
        refine List.forall_mem_cons.mpr ⟨?_, fun y hy => ?_⟩
        · have hlength := hf hitem
          simp only [List.length_append, List.length_cons]
          omega
        · have hlength := ih y hy
          simp only [List.length_append, List.length_cons]
          omega
  cases h with
  | none => simp
  | some _ hitem hmore =>
      refine List.forall_mem_cons.mpr ⟨?_, fun y hy => ?_⟩
      · have hlength := hf hitem
        simp only [List.length_append]
        omega
      · have hlength := htail hmore y hy
        simp only [List.length_append]
        omega

theorem skipWithin_of_formed {text : Bytes} (h : Formed text) (size : Nat)
    (hsize : text.length ≤ size) : Passes (skipWithin size) text := by
  induction h generalizing size with
  | null =>
      intro gap rest hgap _
      have htext : Bytes.ofText "null" ++ rest = 'n'.toUInt8 :: (Bytes.ofText "ull" ++ rest) := rfl
      rw [skipWithin_blank hgap, htext, skipWithin_n, word_append]
  | true =>
      intro gap rest hgap _
      have htext : Bytes.ofText "true" ++ rest = 't'.toUInt8 :: (Bytes.ofText "rue" ++ rest) := rfl
      rw [skipWithin_blank hgap, htext, skipWithin_t, word_append]
  | false =>
      intro gap rest hgap _
      have htext : Bytes.ofText "false" ++ rest = 'f'.toUInt8 :: (Bytes.ofText "alse" ++ rest) :=
        rfl
      rw [skipWithin_blank hgap, htext, skipWithin_f, word_append]
  | @number n hn =>
      intro gap rest hgap hrest
      have hskip := n.skipNumber_text hn (hrest.ends n.fraction n.exponent)
      rw [skipWithin_blank hgap, Numeral.text]
      cases hnegative : n.negative with
      | true =>
          rw [if_pos rfl, List.cons_append, skipWithin_minus]
          exact hskip
      | false =>
          obtain ⟨b, tail, hb, htext⟩ := Numeral.unsigned_eq hn
          rw [if_neg Bool.false_ne_true, htext, List.cons_append, skipWithin_digit hb,
            ← List.cons_append, ← htext]
          exact hskip
  | @string body hbody =>
      intro gap rest hgap _
      have hlength : body.length < size := by
        simp only [inQuotes, List.length_cons, List.length_append] at hsize
        omega
      rw [skipWithin_blank hgap, inQuotes, List.cons_append, List.append_assoc,
        List.singleton_append, skipWithin_quote]
      exact skipString_of_form hbody size rest hlength
  | @array text items htext hitems ih =>
      intro gap rest hgap _
      obtain ⟨inner, rfl, hinner⟩ := htext
      cases size with
      | zero => simp at hsize
      | succ size =>
          have hlength : inner.length ≤ size := by
            simp only [List.length_cons, List.length_append, List.length_nil] at hsize
            omega
          have hshort := le_length_of_items (f := List.length) (fun h => h ▸ le_rfl) hinner
          have hpasses : ∀ t ∈ items, Passes (skipWithin size) t := fun t ht =>
            ih t ht size (Nat.le_trans (hshort t ht) hlength)
          rw [skipWithin_blank hgap, List.cons_append, List.append_assoc, List.singleton_append,
            skipWithin_bracket]
          exact skipElements_items hinner (fun t ht => (hitems t ht).starts) hpasses size rest
            hlength
  | @object text ms htext hvalues ih =>
      intro gap rest hgap _
      obtain ⟨inner, rfl, hinner⟩ := htext
      have hlength : inner.length + 2 ≤ size := by
        simp only [List.length_cons, List.length_append, List.length_nil] at hsize
        omega
      obtain ⟨size, rfl⟩ := Nat.exists_eq_add_of_le' (Nat.le_of_add_left_le hlength)
      have hshort := le_length_of_items (f := fun m : Bytes × Bytes => m.2.length)
        (fun h => by cases h; simp only [List.length_append, List.length_cons]; omega) hinner
      have hpasses : ∀ m ∈ ms, Passes (skipWithin (size + 1)) m.2 := fun m hm =>
        ih m hm (size + 1) (Nat.le_trans (hshort m hm) (by omega))
      rw [skipWithin_blank hgap, List.cons_append, List.append_assoc, List.singleton_append,
        skipWithin_brace]
      exact skipMembers_items hinner hpasses size rest (by omega)

theorem skip_blank_text {text gap rest : Bytes} (h : Formed text) (hgap : Blank gap)
    (hrest : Closed rest) : skip (gap ++ (text ++ rest)) = .ok rest :=
  skipWithin_of_formed h _ (by simp only [List.length_append]; omega) hgap hrest

end JoseTokens.Json
