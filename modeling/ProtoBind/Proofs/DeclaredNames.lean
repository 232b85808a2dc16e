import ProtoBind.Emit.Header
import ProtoBind.Text.IdentifierClass

/-!
# Declared names

The names of the items that emitted lines declare, read off the lines. An item of one kind stands at the
left margin and begins with the words of that kind; its name follows directly.
-/

set_option autoImplicit false

namespace ProtoBind.Emit

open Naming Text

/-- The name behind the words that the declarations of one kind begin with. -/
def declaredName? (head : List Char) : Line → Option String
  | .code 0 text =>
    if head.isPrefixOf text.toList then
      some (String.ofList ((text.toList.drop head.length).takeWhile isIdentifierRest))
    else none
  | _ => none

def declaredNames (head : List Char) (lines : List Line) : List String := lines.filterMap (declaredName? head)

variable {head : List Char}

theorem declaredName?_deeper (line : Line) : declaredName? head line.deeper = none := by
  cases line <;> rfl

theorem declaredName?_code {start name rest : String} (hName : ∀ c ∈ name.toList, isIdentifierRest c = true)
    (hRest : rest.toList.head?.all fun c => !isIdentifierRest c) :
    declaredName? start.toList (code (start ++ name ++ rest)) = some name := by
  have hText : (start ++ name ++ rest).toList = start.toList ++ (name.toList ++ rest.toList) := by
    rw [String.toList_append, String.toList_append, List.append_assoc]
  have hTake : (name.toList ++ rest.toList).takeWhile isIdentifierRest = name.toList := by
    rw [List.takeWhile_append_of_pos hName]
    cases hTail : rest.toList with
    | nil => simp
    | cons c cs =>
      rw [hTail] at hRest
      rw [List.takeWhile_cons_of_neg (by simpa using hRest), List.append_nil]
  rw [code, declaredName?, hText, if_pos (by simp), List.drop_left, hTake, String.ofList_toList]

/-- A text that does not begin with some words, whatever is put behind it. -/
def Differs (head : List Char) (text : String) : Prop := ¬ text.toList.take head.length <+: head

instance (head : List Char) (text : String) : Decidable (Differs head text) :=
  inferInstanceAs (Decidable (¬ _ <+: _))

theorem Differs.append {start : String} (h : Differs head start) (rest : String) :
    Differs head (start ++ rest) := by
  intro hHead
  refine h (List.IsPrefix.trans ?_ hHead)
  rw [String.toList_append, List.take_append]
  exact List.prefix_append _ _

theorem declaredName?_of_differs {text : String} (h : Differs head text) :
    declaredName? head (code text) = none := by
  rw [code, declaredName?, if_neg]
  intro hHead
  obtain ⟨rest, hText⟩ := List.isPrefixOf_iff_prefix.mp hHead
  have hTake : text.toList.take head.length = head := by
    rw [← hText, List.take_left]
  exact h (by simp [hTake])

theorem declaredNames_append (front back : List Line) :
    declaredNames head (front ++ back) = declaredNames head front ++ declaredNames head back :=
  List.filterMap_append

theorem declaredNames_cons_of_none {line : Line} (h : declaredName? head line = none) (lines : List Line) :
    declaredNames head (line :: lines) = declaredNames head lines := List.filterMap_cons_none h

theorem declaredNames_cons_of_some {line : Line} {name : String} (h : declaredName? head line = some name)
    (lines : List Line) : declaredNames head (line :: lines) = name :: declaredNames head lines :=
  List.filterMap_cons_some h

theorem declaredNames_flatMap {α : Type} (items : List α) (f : α → List Line) :
    declaredNames head (items.flatMap f) = items.flatMap fun item => declaredNames head (f item) :=
  List.filterMap_flatMap

theorem declaredNames_eq_nil {lines : List Line} (h : ∀ line ∈ lines, declaredName? head line = none) :
    declaredNames head lines = [] := List.filterMap_eq_nil_iff.mpr h

theorem declaredNames_nest (lines : List Line) : declaredNames head (nest lines) = [] := by
  refine declaredNames_eq_nil ?_
  intro line hLine
  obtain ⟨inner, _, rfl⟩ := List.mem_map.mp hLine
  exact declaredName?_deeper inner

theorem declaredNames_block (opening : String) (body : List Line) (closing : String) :
    declaredNames head (block opening body closing)
      = declaredNames head [code opening] ++ declaredNames head [code closing] := by
  rw [block, declaredNames_append, ← List.singleton_append, declaredNames_append, declaredNames_nest,
    List.append_nil]

theorem declaredNames_block_of_differs {opening closing : String} (hOpening : Differs head opening)
    (hClosing : Differs head closing) (body : List Line) :
    declaredNames head (block opening body closing) = [] := by
  rw [declaredNames_block]
  simp [declaredNames, declaredName?_of_differs hOpening, declaredName?_of_differs hClosing]

theorem declaredNames_docLines (comment : Option String) : declaredNames head (docLines comment) = [] := by
  cases comment with
  | none => rfl
  | some comment =>
    refine declaredNames_eq_nil ?_
    intro line hLine
    obtain ⟨text, _, rfl⟩ := List.mem_map.mp hLine
    rfl

theorem declaredNames_documentation (comment : Option String) (deprecated : Bool) :
    declaredNames head (documentation comment deprecated) = [] := by
  unfold documentation
  split
  · rw [declaredNames_append, declaredNames_append, declaredNames_docLines]
    split <;> rfl
  · exact declaredNames_docLines comment

theorem declaredNames_header (file : FileNode) : declaredNames head (header file) = [] := by
  have hComment : ∀ comment : String,
      declaredNames head (.innerDoc "" :: (commentLines comment).map .innerDoc) = [] := by
    intro comment
    refine declaredNames_eq_nil ?_
    intro line hLine
    rcases List.mem_cons.mp hLine with rfl | hLine
    · rfl
    · obtain ⟨text, _, rfl⟩ := List.mem_map.mp hLine
      rfl
  unfold header
  rw [declaredNames_append, declaredNames_append]
  cases file.comment? SourcePath.package with
  | none => rfl
  | some comment =>
    dsimp only
    rw [hComment]
    rfl

theorem declaredNames_packageUses (hUse : Differs head "use ") (params : Parameters) (names : LocalNames) :
    declaredNames head (params.packageUses names) = [] := by
  refine declaredNames_eq_nil ?_
  intro line hLine
  obtain ⟨⟨importPath, name⟩, _, rfl⟩ := List.mem_map.mp hLine
  refine declaredName?_of_differs ?_
  unfold Parameters.packageUse
  dsimp only
  split
  · exact (hUse.append _).append _
  · exact (((hUse.append _).append _).append _).append _

/-! ### Texts of lines -/

/-- The text of a line of code of one depth that begins with some words. -/
def headedText? (depth : Nat) (head : List Char) : Line → Option String
  | .code d text => if d = depth ∧ head.isPrefixOf text.toList then some text else none
  | _ => none

def headedTexts (depth : Nat) (head : List Char) (lines : List Line) : List String :=
  lines.filterMap (headedText? depth head)

def nameBehind (head : List Char) (text : String) : String :=
  String.ofList ((text.toList.drop head.length).takeWhile isIdentifierRest)

theorem declaredName?_eq_map (line : Line) :
    declaredName? head line = (headedText? 0 head line).map (nameBehind head) := by
  rcases line with ⟨_ | depth, text⟩ | _ | _ | _
  · rw [declaredName?, headedText?]
    simp only [true_and]
    split <;> rfl
  · simp [declaredName?, headedText?]
  all_goals rfl

theorem declaredNames_eq_map (lines : List Line) :
    declaredNames head lines = (headedTexts 0 head lines).map (nameBehind head) := by
  rw [declaredNames, headedTexts, List.map_filterMap, funext declaredName?_eq_map]

theorem headedTexts_eq_nil {lines : List Line} (h : declaredNames head lines = []) : headedTexts 0 head lines = [] := by
  rw [declaredNames_eq_map] at h
  exact List.map_eq_nil_iff.mp h

section

variable {depth : Nat}

@[simp] theorem headedTexts_nil : headedTexts depth head [] = [] := rfl

@[simp] theorem headedTexts_append (front back : List Line) :
    headedTexts depth head (front ++ back) = headedTexts depth head front ++ headedTexts depth head back :=
  List.filterMap_append

@[simp] theorem headedTexts_flatMap {α : Type} (items : List α) (f : α → List Line) :
    headedTexts depth head (items.flatMap f) = items.flatMap fun item => headedTexts depth head (f item) :=
  List.filterMap_flatMap

theorem headedText?_code {text : String} (h : head <+: text.toList) : headedText? 0 head (code text) = some text :=
  if_pos ⟨rfl, List.isPrefixOf_iff_prefix.mpr h⟩

theorem headedText?_other {text : String} (h : Differs head text) : headedText? depth head (code text) = none := by
  rw [code, headedText?, if_neg]
  rintro ⟨-, hHead⟩
  obtain ⟨rest, hText⟩ := List.isPrefixOf_iff_prefix.mp hHead
  have hTake : text.toList.take head.length = head := by
    rw [← hText, List.take_left]
  exact h (by simp [hTake])

theorem headedText?_outer (text : String) : headedText? (depth + 1) head (code text) = none := by
  simp [code, headedText?]

theorem headedText?_deeper (line : Line) :
    headedText? (depth + 1) head line.deeper = headedText? depth head line := by
  cases line with
  | code d text => simp [headedText?, Line.deeper]
  | doc d text => rfl
  | innerDoc text => rfl
  | blank => rfl

@[simp] theorem headedTexts_outer (text : String) (lines : List Line) :
    headedTexts (depth + 1) head (code text :: lines) = headedTexts (depth + 1) head lines :=
  List.filterMap_cons_none (headedText?_outer text)

theorem headedTexts_code {text : String} (h : head <+: text.toList) (lines : List Line) :
    headedTexts 0 head (code text :: lines) = text :: headedTexts 0 head lines :=
  List.filterMap_cons_some (headedText?_code h)

theorem headedTexts_other {text : String} (h : Differs head text) (lines : List Line) :
    headedTexts depth head (code text :: lines) = headedTexts depth head lines :=
  List.filterMap_cons_none (headedText?_other h)

@[simp] theorem headedTexts_docLines (comment : Option String) : headedTexts depth head (docLines comment) = [] := by
  cases comment with
  | none => rfl
  | some comment =>
    refine List.filterMap_eq_nil_iff.mpr ?_
    intro line hLine
    obtain ⟨text, -, rfl⟩ := List.mem_map.mp hLine
    rfl

@[simp] theorem headedTexts_documentation (comment : Option String) (deprecated : Bool) :
    headedTexts depth head (documentation comment deprecated) = [] := by
  unfold documentation
  split
  · rw [headedTexts_append, headedTexts_append, headedTexts_docLines]
    cases comment <;> rfl
  · exact headedTexts_docLines comment

@[simp] theorem headedTexts_nest_zero (lines : List Line) : headedTexts 0 head (nest lines) = [] :=
  headedTexts_eq_nil (declaredNames_nest lines)

@[simp] theorem headedTexts_nest (lines : List Line) :
    headedTexts (depth + 1) head (nest lines) = headedTexts depth head lines := by
  have hSame : headedText? (depth + 1) head ∘ Line.deeper = headedText? depth head := funext headedText?_deeper
  rw [headedTexts, nest, List.filterMap_map, hSame]
  rfl

@[simp] theorem headedTexts_block (opening : String) (body : List Line) (closing : String) :
    headedTexts (depth + 1) head (block opening body closing) = headedTexts depth head body := by
  rw [block, List.cons_append, headedTexts_outer, headedTexts_append, headedTexts_nest]
  exact List.append_nil _

theorem headedTexts_block_zero (opening : String) (body : List Line) {closing : String} (h : Differs head closing) :
    headedTexts 0 head (block opening body closing) = headedTexts 0 head [code opening] := by
  rw [block, List.cons_append, ← List.singleton_append, headedTexts_append, headedTexts_append,
    headedTexts_nest_zero, headedTexts_other h]
  exact List.append_nil _

end

end ProtoBind.Emit
