import ProtoBind.Naming.Path

/-!
# The parts of a path

A path is cut at its last slash and the name of a file at its last dot. Directory, name and stem are what
they were put together from, as long as nothing behind the cut has another separator.
-/

set_option autoImplicit false

namespace ProtoBind

namespace Text

variable {sep : Char}

theorem splitOnce_append {front : List Char} (h : sep ∉ front) (back : List Char) :
    splitOnce sep (front ++ sep :: back) = some (front, back) := by
  have hFront : ∀ c ∈ front, (c != sep) = true := by
    intro c hC
    exact bne_iff_ne.mpr fun hSame => h (hSame ▸ hC)
  rw [splitOnce, List.dropWhile_append_of_pos hFront, List.takeWhile_append_of_pos hFront]
  simp

theorem splitOnce_of_not_mem {cs : List Char} (h : sep ∉ cs) : splitOnce sep cs = none := by
  have hAll : ∀ c ∈ cs, (c != sep) = true := by
    intro c hC
    exact bne_iff_ne.mpr fun hSame => h (hSame ▸ hC)
  have hDrop : (cs ++ []).dropWhile (· != sep) = [] := List.dropWhile_append_of_pos hAll
  rw [List.append_nil] at hDrop
  rw [splitOnce, hDrop]

theorem splitLast_append (front : List Char) {back : List Char} (h : sep ∉ back) :
    splitLast sep (front ++ sep :: back) = some (front, back) := by
  have hReverse : (front ++ sep :: back).reverse = back.reverse ++ sep :: front.reverse := by simp
  rw [splitLast, hReverse, splitOnce_append (by simpa using h)]
  simp

theorem splitLast_of_not_mem {cs : List Char} (h : sep ∉ cs) : splitLast sep cs = none := by
  rw [splitLast, splitOnce_of_not_mem (by simpa using h), Option.map_none]

/-- Characters are without a separator, or have a last one. -/
theorem not_mem_or_eq_append (sep : Char) (cs : List Char) :
    sep ∉ cs ∨ ∃ front back, cs = front ++ sep :: back ∧ sep ∉ back := by
  by_cases h : sep ∈ cs
  · obtain ⟨back, front, hReverse, hBack⟩ := List.eq_append_cons_of_mem (List.mem_reverse.mpr h)
    refine .inr ⟨front.reverse, back.reverse, ?_, by simpa using hBack⟩
    simpa using congrArg List.reverse hReverse
  · exact .inl h

end Text

namespace Naming

open Text

theorem lastSegment_of_not_mem {path : List Char} (h : '/' ∉ path) : lastSegment path = path := by
  rw [lastSegment, splitLast_of_not_mem h]

theorem lastSegment_append (dir : List Char) {name : List Char} (h : '/' ∉ name) :
    lastSegment (dir ++ '/' :: name) = name := by
  rw [lastSegment, splitLast_append dir h]

theorem slash_not_mem_lastSegment (path : List Char) : '/' ∉ lastSegment path := by
  rcases not_mem_or_eq_append '/' path with h | ⟨dir, name, rfl, h⟩
  · rwa [lastSegment_of_not_mem h]
  · rwa [lastSegment_append dir h]

theorem dropExtension_append {stem extension : List Char} (hStem : stem ≠ []) (h : '.' ∉ extension) :
    dropExtension (stem ++ '.' :: extension) = stem := by
  rw [dropExtension, splitLast_append stem h]
  cases stem with
  | nil => exact absurd rfl hStem
  | cons c rest => rfl

/-- Nothing but an end of a name is dropped. -/
theorem dropExtension_isPrefix (name : List Char) : dropExtension name <+: name := by
  rcases not_mem_or_eq_append '.' name with h | ⟨stem, extension, rfl, h⟩
  · exact ⟨[], by rw [List.append_nil, dropExtension, splitLast_of_not_mem h]⟩
  · cases stem with
    | nil => exact ⟨[], by rw [List.append_nil, dropExtension, splitLast_append [] h]⟩
    | cons c rest =>
      rw [dropExtension_append (List.cons_ne_nil c rest) h]
      exact List.prefix_append _ _

theorem slash_not_mem_baseName (path : String) : '/' ∉ (baseName path).toList := by
  rw [baseName, String.toList_ofList]
  exact fun h => slash_not_mem_lastSegment path.toList ((dropExtension_isPrefix _).subset h)

theorem dirName_of_not_mem {path : String} (h : '/' ∉ path.toList) : dirName path = "." := by
  rw [dirName, splitLast_of_not_mem h]

theorem dirName_append (dir : String) {name : String} (h : '/' ∉ name.toList) :
    dirName (dir ++ "/" ++ name) = if dir = "" then "/" else dir := by
  have hList : (dir ++ "/" ++ name).toList = dir.toList ++ '/' :: name.toList := by simp
  rw [dirName, hList, splitLast_append dir.toList h]
  split
  · rename_i hSplit
    cases hSplit
  · rename_i hSplit
    have hEmpty : dir = "" := String.toList_eq_nil_iff.mp (congrArg Prod.fst (Option.some.inj hSplit))
    rw [if_pos hEmpty]
  · rename_i back hDir hSplit
    obtain ⟨rfl, rfl⟩ := Prod.mk.inj (Option.some.inj hSplit)
    have hSome : dir ≠ "" := fun hEmpty => hDir (by simp [hEmpty])
    rw [if_neg hSome, String.ofList_toList]

/-- A path is the name of a file, or a directory, a slash and such a name. -/
theorem path_cases (path : String) :
    '/' ∉ path.toList ∨ ∃ dir name, path = dir ++ "/" ++ name ∧ '/' ∉ name.toList := by
  rcases not_mem_or_eq_append '/' path.toList with h | ⟨dir, name, hPath, hName⟩
  · exact .inl h
  · refine .inr ⟨String.ofList dir, String.ofList name, ?_, by rwa [String.toList_ofList]⟩
    rw [← String.toList_inj, hPath]
    simp

theorem dirName_ne_empty (path : String) : dirName path ≠ "" := by
  rcases path_cases path with h | ⟨dir, name, rfl, h⟩
  · rw [dirName_of_not_mem h]
    decide
  · rw [dirName_append dir h]
    split
    · decide
    · assumption

/-- The path of a file in a directory. The current directory is not written. -/
def pathIn (directory name : String) : String :=
  if directory = "." ∨ directory = "" then name else directory ++ "/" ++ name

theorem lastSegment_pathIn (directory : String) {name : String} (h : '/' ∉ name.toList) :
    lastSegment (pathIn directory name).toList = name.toList := by
  unfold pathIn
  split
  · exact lastSegment_of_not_mem h
  · have hList : (directory ++ "/" ++ name).toList = directory.toList ++ '/' :: name.toList := by simp
    rw [hList, lastSegment_append _ h]

theorem dirName_pathIn (directory : String) {name : String} (h : '/' ∉ name.toList) :
    dirName (pathIn directory name) = if directory = "" then "." else directory := by
  unfold pathIn
  split
  · rename_i hCurrent
    rw [dirName_of_not_mem h]
    rcases hCurrent with rfl | rfl <;> rfl
  · rename_i hOther
    rw [dirName_append _ h, if_neg (not_or.mp hOther).2, if_neg (not_or.mp hOther).2]

end Naming

end ProtoBind
