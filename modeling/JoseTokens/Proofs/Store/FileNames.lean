import JoseTokens.Proofs.Store.File

namespace JoseTokens

structure IsEntry (name : String) : Prop where
  ne_empty : name ≠ ""
  ne_dot : name ≠ "."
  ne_dots : name ≠ ".."
  no_slash : '/' ∉ name.toList

theorem isEntry_append {name rest : String} (hname : '/' ∉ name.toList)
    (hrest : '/' ∉ rest.toList) (hlength : 2 < rest.length) : IsEntry (name ++ rest) := by
  have hlong : 2 < (name ++ rest).length := by
    rw [String.length_append]
    omega
  have hshort : ∀ text : String, text.length ≤ 2 → name ++ rest ≠ text := by
    rintro text htext rfl
    omega
  refine ⟨hshort "" (by decide), hshort "." (by decide), hshort ".." (by decide), ?_⟩
  rw [String.toList_append, List.mem_append, not_or]
  exact ⟨hname, hrest⟩

namespace Path

theorem ofText_entry {name : String} (h : IsEntry name) : ofText name = [name] := by
  have hname : ¬ (name.toList = [] ∨ name.toList = ['.']) := by
    rintro (hnil | hdot)
    · exact h.ne_empty (String.toList_injective hnil)
    · exact h.ne_dot (String.toList_injective hdot)
  rw [ofText, List.splitOn_eq_singleton h.no_slash, List.filterMap_cons, if_neg hname,
    String.ofList_toList, List.filterMap_nil]

theorem ofText_slash (text rest : String) :
    ofText (text ++ "/" ++ rest) = ofText text ++ ofText rest := by
  have hsplit : (text ++ "/" ++ rest).toList = text.toList ++ '/' :: rest.toList := by simp
  rw [ofText, hsplit, List.splitOn_append_cons_self, List.filterMap_append]
  rfl

def spelled (path : Path) : Path :=
  ofText (FileStore.pathText path)

theorem spelled_child (dir : Path) {name : String} (h : IsEntry name) :
    spelled (dir ++ [name]) = spelled dir ++ [name] := by
  rw [spelled, spelled, FileStore.pathText, FileStore.pathText]
  by_cases hdir : dir = []
  · rw [hdir, List.nil_append, String.intercalate_singleton, ofText_entry h]
    rfl
  · rw [String.intercalate_append_of_ne_nil hdir (by simp), String.intercalate_singleton,
      ofText_slash, ofText_entry h]

end Path

def IsChild (dir path : Path) : Prop :=
  ∃ name, IsEntry name ∧ path = dir ++ [name] ∧ path.spelled = dir.spelled ++ [name]

theorem isChild_concat (dir : Path) {name : String} (h : IsEntry name) :
    IsChild dir (dir ++ [name]) :=
  ⟨name, h, rfl, Path.spelled_child dir h⟩

def stem (name : String) : String :=
  match (name.toList.reverse.dropWhile (· ≠ '.')).drop 1 with
  | [] => name
  | before => String.ofList before.reverse

def withExtension (path : Path) (extension : String) : Path :=
  match path.getLast? with
  | none => path
  | some name =>
      if name = ".." then path
      else path.dropLast ++ [if extension = "" then stem name else stem name ++ "." ++ extension]

theorem stem_append {name rest : String} (hname : name ≠ "") (hrest : '.' ∉ rest.toList) :
    stem (name ++ "." ++ rest) = name := by
  have hreverse : (name ++ "." ++ rest).toList.reverse =
      rest.toList.reverse ++ '.' :: name.toList.reverse := by simp
  have hdrop : (rest.toList.reverse ++ '.' :: name.toList.reverse).dropWhile (· ≠ '.') =
      '.' :: name.toList.reverse := by
    rw [List.dropWhile_append_of_pos, List.dropWhile_cons_of_neg (by simp)]
    intro c hc
    have hne : c ≠ '.' := by
      rintro rfl
      exact hrest (List.mem_reverse.mp hc)
    simpa using hne
  rw [stem, hreverse, hdrop, List.drop_one, List.tail_cons]
  split
  next hnil => exact absurd (String.toList_injective (List.reverse_eq_nil_iff.mp hnil)) hname
  · rw [List.reverse_reverse, String.ofList_toList]

theorem withExtension_child (dir : Path) {name extension : String} (hname : name ≠ "..")
    (hextension : extension ≠ "") :
    withExtension (dir ++ [name]) extension = dir ++ [stem name ++ "." ++ extension] := by
  rw [withExtension, List.getLast?_concat]
  simp only [if_neg hname, if_neg hextension, List.dropLast_concat]

example : withExtension ["keys", ".a.b"] "json.tmp" = ["keys", ".a.json.tmp"] := by decide

namespace FileStore

structure NameFits (name : String) : Prop where
  ne_empty : name ≠ ""
  ne_dot : name ≠ "."
  ne_dots : name ≠ ".."
  no_slash : '/' ∉ name.toList
  no_backslash : '\\' ∉ name.toList

theorem nameFits_iff {name : String} : NameFits name ↔ isFileName name = true := by
  constructor
  · rintro ⟨hempty, hdot, hdots, hslash, hbackslash⟩
    simp [isFileName, hempty, hdot, hdots, hslash, hbackslash]
  · intro h
    obtain ⟨⟨⟨⟨hempty, hdot⟩, hdots⟩, hslash⟩, hbackslash⟩ := by
      simpa only [isFileName, Bool.and_eq_true] using h
    exact ⟨by simpa using hempty, by simpa using hdot, by simpa using hdots,
      by simpa using hslash, by simpa using hbackslash⟩

theorem NameFits.isEntry_file {name : String} (h : NameFits name) : IsEntry (name ++ ending) :=
  isEntry_append h.no_slash (by decide) (by decide)

theorem NameFits.isEntry_beside {name : String} (h : NameFits name) :
    IsEntry (name ++ ending ++ temporaryEnding) :=
  isEntry_append h.isEntry_file.no_slash (by decide) (by decide)

theorem temporary_eq_withExtension (dir : Path) {name : String} (h : NameFits name) :
    temporary (dir ++ [name ++ ending]) = withExtension (dir ++ [name ++ ending]) "json.tmp" := by
  have hfile : name ++ ending = name ++ "." ++ "json" := by
    rw [String.append_assoc]
    rfl
  have hbeside : name ++ ending ++ temporaryEnding = name ++ "." ++ "json.tmp" := by
    rw [String.append_assoc, String.append_assoc]
    rfl
  have hstem : stem (name ++ ending) = name := by
    rw [hfile]
    exact stem_append h.ne_empty (by decide)
  rw [temporary_child, withExtension_child dir h.isEntry_file.ne_dots (by decide), hstem, hbeside]

end FileStore

end JoseTokens
