import ProtoBind.Emit.Line
import ProtoBind.Proofs.Pieces

/-!
# Comment lines

What is left of emitted source when its comment lines are taken out. That a line is a comment is said
twice: of the text, by how it begins, and of a line before it is written, by its role.
-/

set_option autoImplicit false

namespace ProtoBind.Text

theorem newline_not_mem_commentLines {comment line : String} (h : line ∈ commentLines comment) :
    '\n' ∉ line.toList := by
  obtain ⟨piece, hPiece, rfl⟩ := List.mem_map.mp h
  rw [String.toList_ofList]
  exact fun hMem => sep_not_mem_splitOn hPiece (mem_of_mem_trim hMem)

end ProtoBind.Text

namespace ProtoBind.Emit

open Text

/-- Whether a line of text is a comment: what its first characters but for blanks say. -/
def isCommentText (line : List Char) : Bool :=
  "///".toList.isPrefixOf (trimStart line) || "//!".toList.isPrefixOf (trimStart line)

def codeLines (text : String) : List (List Char) :=
  (splitOn '\n' text.toList).filter fun line => !isCommentText line

def isRemark : Line → Bool
  | .doc _ text | .innerDoc text => !text.toList.contains '\n'
  | _ => false

def stripped (lines : List Line) : List Line := lines.filter fun line => !isRemark line

theorem stripped_append (front back : List Line) :
    stripped (front ++ back) = stripped front ++ stripped back := List.filter_append ..

theorem stripped_cons_of_remark {line : Line} (h : isRemark line = true) (lines : List Line) :
    stripped (line :: lines) = stripped lines := List.filter_cons_of_neg (by simp [h])

theorem stripped_cons_of_other {line : Line} (h : isRemark line = false) (lines : List Line) :
    stripped (line :: lines) = line :: stripped lines := List.filter_cons_of_pos (by simp [h])

theorem stripped_code (depth : Nat) (text : String) (lines : List Line) :
    stripped (.code depth text :: lines) = .code depth text :: stripped lines :=
  stripped_cons_of_other rfl lines

theorem stripped_flatMap {α : Type} (items : List α) (f : α → List Line) :
    stripped (items.flatMap f) = items.flatMap fun item => stripped (f item) :=
  List.filter_flatMap

theorem stripped_eq_nil {lines : List Line} (h : ∀ line ∈ lines, isRemark line = true) :
    stripped lines = [] := by
  refine List.filter_eq_nil_iff.mpr ?_
  intro line hLine
  simp [h line hLine]

theorem isRemark_deeper (line : Line) : isRemark line.deeper = isRemark line := by
  cases line <;> rfl

theorem stripped_nest (lines : List Line) : stripped (nest lines) = nest (stripped lines) := by
  unfold stripped nest
  rw [List.filter_map]
  congr 2
  funext line
  exact congrArg not (isRemark_deeper line)

theorem stripped_block (opening : String) (body : List Line) (closing : String) :
    stripped (block opening body closing) = block opening (stripped body) closing := by
  rw [block, List.cons_append, code, stripped_code, stripped_append, stripped_nest]
  rfl

theorem stripped_docLines (comment : Option String) : stripped (docLines comment) = [] := by
  cases comment with
  | none => rfl
  | some comment =>
    refine stripped_eq_nil ?_
    intro line hLine
    obtain ⟨text, hText, rfl⟩ := List.mem_map.mp hLine
    simpa [isRemark] using newline_not_mem_commentLines hText

theorem stripped_documentation (comment : Option String) (deprecated : Bool) :
    stripped (documentation comment deprecated) = [] := by
  have hNote : stripped [.doc 0 deprecationNote] = [] := by decide
  unfold documentation
  split
  · rw [stripped_append, stripped_append, stripped_docLines, hNote]
    split <;> rfl
  · exact stripped_docLines comment

theorem indentation_toList (depth : Nat) :
    (Line.indentation depth).toList = List.replicate (4 * depth) ' ' := by
  have hRepeat : ∀ n, ("".pushn ' ' n).toList = List.replicate n ' ' := by
    intro n
    rw [String.pushn_eq_repeat_push]
    induction n with
    | zero => rfl
    | succ n ih => rw [Nat.repeat, String.toList_push, ih, List.replicate_succ']
  exact hRepeat (4 * depth)

theorem isCommentText_marked {marker : String} (hMarker : marker = "///" ∨ marker = "//!")
    (blanks : Nat) (text : String) :
    isCommentText (List.replicate blanks ' ' ++ (marked marker text).toList) = true := by
  have hMarked : ∃ rest, (marked marker text).toList = marker.toList ++ rest := by
    unfold marked
    split
    · exact ⟨[], (List.append_nil _).symm⟩
    · exact ⟨" ".toList ++ text.toList, by simp [String.toList_append]⟩
  obtain ⟨rest, hRest⟩ := hMarked
  have hTrim : trimStart (List.replicate blanks ' ' ++ (marker.toList ++ rest))
      = marker.toList ++ rest := by
    induction blanks with
    | zero => rcases hMarker with rfl | rfl <;> rfl
    | succ blanks ih =>
      rw [List.replicate_succ, List.cons_append, trimStart, List.dropWhile_cons_of_pos (by decide)]
      exact ih
  rw [isCommentText, hRest, hTrim]
  rcases hMarker with rfl | rfl <;> simp

theorem newline_not_mem_marked {marker text : String} (hMarker : '\n' ∉ marker.toList)
    (hText : '\n' ∉ text.toList) : '\n' ∉ (marked marker text).toList := by
  unfold marked
  split
  · exact hMarker
  · simp [String.toList_append, hMarker, hText]

/-- A remark is written as a line of text that is a comment. -/
theorem filter_splitOn_remark {line : Line} (h : isRemark line = true) :
    (splitOn '\n' line.text.toList).filter (fun piece => !isCommentText piece) = [] := by
  have hLine : '\n' ∉ line.text.toList ∧ isCommentText line.text.toList = true := by
    cases line with
    | code depth text => cases h
    | blank => cases h
    | doc depth text =>
      have hText : '\n' ∉ text.toList := by simpa [isRemark] using h
      rw [Line.text, String.toList_append, indentation_toList]
      refine ⟨?_, isCommentText_marked (.inl rfl) _ text⟩
      rw [List.mem_append, not_or]
      exact ⟨by simp, newline_not_mem_marked (by decide) hText⟩
    | innerDoc text =>
      have hText : '\n' ∉ text.toList := by simpa [isRemark] using h
      exact ⟨newline_not_mem_marked (by decide) hText, isCommentText_marked (.inr rfl) 0 text⟩
  rw [splitOn_of_not_mem hLine.1]
  simp [hLine.2]

theorem splitOn_render_cons (line : Line) (lines : List Line) :
    splitOn '\n' (render (line :: lines)).toList
      = splitOn '\n' line.text.toList ++ splitOn '\n' (render lines).toList := by
  have hText : (render (line :: lines)).toList
      = line.text.toList ++ '\n' :: (render lines).toList := by
    simp [render, String.toList_append]
  rw [hText, splitOn_append_sep]

/-- Remarks leave no trace among the lines of a text that are no comments. -/
theorem codeLines_render_stripped (lines : List Line) :
    codeLines (render (stripped lines)) = codeLines (render lines) := by
  induction lines with
  | nil => rfl
  | cons line rest ih =>
    unfold codeLines at ih ⊢
    rw [splitOn_render_cons, List.filter_append, ← ih]
    cases hRemark : isRemark line with
    | true => rw [stripped_cons_of_remark hRemark, filter_splitOn_remark hRemark, List.nil_append]
    | false => rw [stripped_cons_of_other hRemark, splitOn_render_cons, List.filter_append]

theorem codeLines_congr {front back : List Line} (h : stripped front = stripped back) :
    codeLines (render front) = codeLines (render back) := by
  rw [← codeLines_render_stripped front, h, codeLines_render_stripped]

end ProtoBind.Emit
