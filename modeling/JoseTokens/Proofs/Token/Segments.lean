import JoseTokens.Proofs.Json.Values
import JoseTokens.Token.JwsText

namespace JoseTokens

theorem Text.dropWhile_head {cs : List Char} {c : Char} (hhead : cs.head? = some c)
    (hc : isBlank c = false) : cs.dropWhile isBlank = cs := by
  cases cs with
  | nil => simp at hhead
  | cons first cs =>
      obtain rfl : first = c := by simpa using hhead
      rw [List.dropWhile_cons_of_neg (by simp [hc])]

theorem Text.trim_of_ends {s : String} (first last : Char) (hhead : s.toList.head? = some first)
    (hlast : s.toList.getLast? = some last) (hfirst : isBlank first = false)
    (hblank : isBlank last = false) : trim s = s := by
  have hreverse : s.toList.reverse.head? = some last := by
    rw [List.head?_reverse]
    exact hlast
  rw [trim, Text.dropWhile_head hhead hfirst, Text.dropWhile_head hreverse hblank,
    List.reverse_reverse, String.ofList_toList]

theorem Text.trim_of_nonblank {s : String} (h : ∀ c ∈ s.toList, isBlank c = false) :
    trim s = s := by
  have hkeep (cs : List Char) (hcs : ∀ c ∈ cs, c ∈ s.toList) : cs.dropWhile isBlank = cs := by
    cases cs with
    | nil => rfl
    | cons c cs =>
        exact Text.dropWhile_head (List.head?_cons) (h c (hcs c List.mem_cons_self))
  rw [trim, hkeep _ fun _ hc => hc, hkeep _ fun _ hc => List.mem_reverse.mp hc,
    List.reverse_reverse, String.ofList_toList]

theorem Json.toList_compact_object (ms : List (String × Json)) :
    (Json.compact (.object ms)).toList = '\x7b' :: (Json.memberChars ms ++ ['\x7d']) := by
  rw [compact, String.toList_ofList, chars]

theorem Json.trim_compact_object (ms : List (String × Json)) :
    Text.trim (Json.compact (.object ms)) = Json.compact (.object ms) := by
  have hchars := toList_compact_object ms
  refine Text.trim_of_ends '\x7b' '\x7d' ?_ ?_ rfl rfl
  · rw [hchars, List.head?_cons]
  · rw [hchars, ← List.cons_append, List.getLast?_concat]

theorem compactSegments_object (ms : List (String × Json)) :
    compactSegments (Json.compact (.object ms)) = [] := by
  rw [compactSegments, Json.toList_compact_object, List.head?_cons, if_pos rfl]

def Bare (s : String) : Prop :=
  ∀ c ∈ s.toList, c ≠ '.' ∧ Text.isBlank c = false

instance : DecidablePred Bare :=
  fun s => List.decidableBAll (fun c => c ≠ '.' ∧ Text.isBlank c = false) s.toList

theorem mem_intercalate {x c : Char} {parts : List (List Char)} (h : c ∈ [x].intercalate parts) :
    c = x ∨ ∃ part ∈ parts, c ∈ part := by
  induction parts with
  | nil => exact absurd h List.not_mem_nil
  | cons part parts ih =>
      cases parts with
      | nil => exact .inr ⟨part, List.mem_cons_self, by simpa using h⟩
      | cons next parts =>
          rw [List.intercalate_cons_cons, List.mem_append, List.mem_append] at h
          rcases h with (h | h) | h
          · exact .inr ⟨part, List.mem_cons_self, h⟩
          · exact .inl (List.mem_singleton.mp h)
          · rcases ih h with heq | ⟨other, hother, hc⟩
            · exact .inl heq
            · exact .inr ⟨other, List.mem_cons_of_mem _ hother, hc⟩

theorem toList_joined (parts : List String) :
    (String.intercalate "." parts).toList = ['.'].intercalate (parts.map String.toList) := by
  rw [String.toList_intercalate]
  rfl

theorem mem_joined {parts : List String} {c : Char}
    (hc : c ∈ (String.intercalate "." parts).toList) : c = '.' ∨ ∃ part ∈ parts, c ∈ part.toList := by
  rw [toList_joined] at hc
  rcases mem_intercalate hc with heq | ⟨part, hpart, hc⟩
  · exact .inl heq
  · obtain ⟨s, hs, rfl⟩ := List.mem_map.mp hpart
    exact .inr ⟨s, hs, hc⟩

section

variable {parts : List String} (h : ∀ s ∈ parts, Bare s)

include h

theorem trim_bare : Text.trim (String.intercalate "." parts) = String.intercalate "." parts := by
  refine Text.trim_of_nonblank fun c hc => ?_
  rcases mem_joined hc with rfl | ⟨s, hs, hc⟩
  · rfl
  · exact (h s hs c hc).2

theorem compactSegments_bare (hsome : parts ≠ [])
    (hhead : (String.intercalate "." parts).toList.head? ≠ some '\x7b') :
    compactSegments (String.intercalate "." parts) = parts := by
  have hpoint : ∀ cs ∈ parts.map String.toList, '.' ∉ cs := by
    intro cs hcs hmem
    obtain ⟨s, hs, rfl⟩ := List.mem_map.mp hcs
    exact (h s hs _ hmem).1 rfl
  rw [compactSegments, if_neg hhead, segments, toList_joined,
    List.splitOn_intercalate _ hpoint (by simpa using hsome), List.map_map]
  simp [Function.comp_def]

end

theorem joined_compactSegments {text : String} (h : compactSegments text ≠ []) :
    String.intercalate "." (compactSegments text) = text := by
  rw [compactSegments] at h ⊢
  split at h
  · exact absurd rfl h
  next hhead =>
    rw [if_neg hhead, ← String.toList_inj, toList_joined, segments, List.map_map]
    simp [Function.comp_def, List.intercalate_splitOn]

end JoseTokens
