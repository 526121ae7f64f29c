import JoseTokens.Proofs.Json.Indented

namespace JoseTokens.Json

section

variable {ι : Type} {item : Bytes → ι → Prop} {texts : List Bytes} {xs : List ι}

theorem tail_tailText (h : List.Forall₂ item texts xs) : Tail item (tailText texts) xs := by
  induction h with
  | nil => exact .nil Blank.nil
  | cons hx _ ih => exact .cons Blank.nil Blank.nil hx ih

theorem items_joinText (h : List.Forall₂ item texts xs) : Items item (joinText texts) xs := by
  cases h with
  | nil => exact .none Blank.nil
  | cons hx hxs => exact .some Blank.nil hx (tail_tailText hxs)

end

theorem memberText_written (m : String × Bytes) : MemberText StringText (memberText m) m :=
  .mk (stringText_quoted m.1) Blank.nil Blank.nil

theorem objectText_bytes (ms : List (String × Json)) :
    ObjectText (bytes (.object ms)) (ms.map writtenMember) := by
  refine ⟨_, bytes_object ms, items_joinText ?_⟩
  rw [List.forall₂_map_left_iff, List.forall₂_same]
  exact fun m _ => memberText_written m

theorem Denotes.succ {d : Nat} {text : Bytes} {v : Json} (h : Denotes d text v) :
    Denotes (d + 1) text v := by
  induction d generalizing text v with
  | zero => exact .inl h
  | succ d ih =>
      rcases h with hscalar | ⟨items, vs, htext, hvs, rfl⟩ | ⟨ms, vs, htext, hvs, rfl⟩
      · exact .inl hscalar
      · exact .inr (.inl ⟨items, vs, htext, hvs.imp fun _ _ => ih, rfl⟩)
      · exact .inr (.inr ⟨ms, vs, htext, hvs.imp fun _ _ hm => ⟨hm.1, ih hm.2⟩, rfl⟩)

theorem Denotes.mono {d e : Nat} (hle : d ≤ e) {text : Bytes} {v : Json} (h : Denotes d text v) :
    Denotes e text v := by
  induction hle with
  | refl => exact h
  | step _ ih => exact ih.succ

theorem DocumentOf.functional {d e : Nat} {text : Bytes} {v w : Json}
    (hv : DocumentOf (Denotes d) text v) (hw : DocumentOf (Denotes e) text w) : v = w :=
  (parses_value (max d e)).document_functional
    (hv.imp fun h => h.mono (Nat.le_max_left d e))
    (hw.imp fun h => h.mono (Nat.le_max_right d e))

theorem compact_inj {v w : Json} (hv : Portable v) (hw : Portable w) :
    v.compact = w.compact ↔ v = w := by
  refine ⟨fun h => ?_, congrArg compact⟩
  -- Each of the two is what is read back from the text that they share.
  have hbytes : v.bytes = w.bytes := by rw [← ofText_compact, ← ofText_compact, h]
  have hread : DocumentOf (Denotes (depth v)) v.bytes v :=
    .of_text (denotes_bytes hv (Nat.le_refl _))
  have hread' : DocumentOf (Denotes (depth w)) w.bytes w :=
    .of_text (denotes_bytes hw (Nat.le_refl _))
  exact DocumentOf.functional hread (hbytes ▸ hread')

end JoseTokens.Json
