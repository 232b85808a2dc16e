import ProtoBind.Proofs.DeclaredNames
import ProtoBind.Proofs.FieldComments
import ProtoBind.Proofs.NameForms

/-!
# Words in lines

The word behind a fixed beginning, read off the lines of code of one depth: the identifiers of fields, the
names of variants and of methods, and what the methods match on.
-/

set_option autoImplicit false

namespace ProtoBind.Emit

open Naming Text

def wordIn (head : String) (mark : Char) (text : String) : String :=
  String.ofList ((text.toList.drop head.toList.length).takeWhile (· ≠ mark))

theorem wordIn_append {head word rest : String} {mark : Char} (hWord : mark ∉ word.toList)
    (hRest : rest.toList.head? = some mark) : wordIn head mark (head ++ word ++ rest) = word := by
  have hText : (head ++ word ++ rest).toList = head.toList ++ (word.toList ++ rest.toList) := by
    rw [String.toList_append, String.toList_append, List.append_assoc]
  have hTake : (word.toList ++ rest.toList).takeWhile (· ≠ mark) = word.toList := by
    obtain ⟨more, hMore⟩ := List.head?_eq_some_iff.mp hRest
    rw [List.takeWhile_append_of_pos, hMore, List.takeWhile_cons_of_neg (by simp), List.append_nil]
    intro c hC
    simpa using ne_of_mem_of_not_mem hC hWord
  rw [wordIn, hText, List.drop_left, hTake, String.ofList_toList]

def wordsBehind (depth : Nat) (head : String) (mark : Char) (lines : List Line) : List String :=
  (headedTexts depth head.toList lines).map (wordIn head mark)

section

variable {depth : Nat} {head : String} {mark : Char}

theorem wordsBehind_nil : wordsBehind depth head mark [] = [] := rfl

theorem wordsBehind_flatMap {α : Type} (items : List α) (f : α → List Line) :
    wordsBehind depth head mark (items.flatMap f) = items.flatMap fun item => wordsBehind depth head mark (f item) := by
  rw [wordsBehind, headedTexts_flatMap, List.map_flatMap]
  rfl

theorem wordsBehind_code {word rest text : String} (hWord : mark ∉ word.toList) (hRest : rest.toList.head? = some mark)
    (hText : text = head ++ word ++ rest) (lines : List Line) :
    wordsBehind 0 head mark (code text :: lines) = word :: wordsBehind 0 head mark lines := by
  have hHead : head.toList <+: (head ++ word ++ rest).toList := by
    rw [String.toList_append, String.toList_append, List.append_assoc]
    exact List.prefix_append _ _
  rw [hText, wordsBehind, headedTexts_code hHead, List.map_cons, wordIn_append hWord hRest]
  rfl

end

/-! ### Fields and members -/

def fieldIdentifiers (depth : Nat) (lines : List Line) : List String := wordsBehind depth "pub " ':' lines

def methodNames (depth : Nat) (lines : List Line) : List String := wordsBehind depth "pub fn " '(' lines

def matchedFields (depth : Nat) (lines : List Line) : List String :=
  wordsBehind (depth + 1) "match &self." ' ' lines

def returningArms (depth : Nat) (lines : List Line) : List String := headedTexts (depth + 2) "Some(".toList lines

def variantNames (depth : Nat) (lines : List Line) : List String :=
  (wordsBehind (depth + 1) "" '(' lines).filter isSchemaName

theorem not_mem_of_isSchemaName {name : String} (h : isSchemaName name = true) {c : Char}
    (hChar : isNameChar c = false) : c ∉ name.toList := by
  intro hMem
  rw [isNameChar_of_mem h hMem] at hChar
  cases hChar

theorem not_mem_fieldIdentifier {name : String} (h : isSchemaName name = true) {c : Char}
    (hChar : isNameChar c = false) (hMark : c ≠ '#') : c ∉ (fieldIdentifier name).toList := by
  have hName := not_mem_of_isSchemaName h hChar
  unfold fieldIdentifier
  split
  · rw [String.toList_append, List.mem_append, not_or]
    have hUnderscore : isSchemaName "_" = true := by decide
    exact ⟨hName, not_mem_of_isSchemaName hUnderscore hChar⟩
  · split
    · rw [String.toList_append, List.mem_append, not_or]
      refine ⟨?_, hName⟩
      have hRaw : "r#".toList = ['r', '#'] := rfl
      rw [hRaw, List.mem_cons, List.mem_singleton, not_or]
      refine ⟨?_, hMark⟩
      rintro rfl
      cases hChar
    · exact hName

section

variable (names : LocalNames)

theorem differs_rename {head : List Char} (hHead : Differs head "#[serde(rename = ") (field : PlainField) :
    Differs head field.serdeAttribute := by
  unfold PlainField.serdeAttribute renameAttribute
  split
  · exact (hHead.append _).append _
  · exact (hHead.append _).append _

theorem fieldIdentifiers_plain {field : PlainField} (h : isSchemaName field.name = true) :
    fieldIdentifiers 0 (field.lines names) = [fieldIdentifier field.name] := by
  have hMark : ':' ∉ (fieldIdentifier field.name).toList := not_mem_fieldIdentifier h (by decide) (by decide)
  have hText : "pub " ++ fieldIdentifier field.name ++ ": " ++ field.shape.text names ++ ","
      = "pub " ++ fieldIdentifier field.name ++ (": " ++ field.shape.text names ++ ",") := by
    simp only [String.append_assoc]
  rw [fieldIdentifiers, wordsBehind, PlainField.lines, headedTexts_append, headedTexts_documentation, List.nil_append,
    headedTexts_other (differs_rename (by decide) field), ← wordsBehind, wordsBehind_code hMark (by simp) hText,
    wordsBehind_nil]

theorem fieldIdentifiers_oneof {oneof : OneofField} (h : isSchemaName oneof.name = true) :
    fieldIdentifiers 0 oneof.lines = [fieldIdentifier oneof.name] := by
  have hMark : ':' ∉ (fieldIdentifier oneof.name).toList := not_mem_fieldIdentifier h (by decide) (by decide)
  have hText : "pub " ++ fieldIdentifier oneof.name ++ ": Option<" ++ oneof.enumName ++ ">,"
      = "pub " ++ fieldIdentifier oneof.name ++ (": Option<" ++ oneof.enumName ++ ">,") := by
    simp only [String.append_assoc]
  rw [fieldIdentifiers, wordsBehind, OneofField.lines, headedTexts_append, headedTexts_documentation, List.nil_append,
    headedTexts_other (by decide), ← wordsBehind, wordsBehind_code hMark (by simp) hText, wordsBehind_nil]

theorem headedTexts_declaration (head : List Char) (s : Struct) :
    headedTexts 1 head (s.declaration names)
      = s.fields.flatMap fun field => headedTexts 0 head (field.lines names) := by
  unfold Struct.declaration
  split
  · rename_i hNone
    rw [List.isEmpty_iff.mp hNone]
    rfl
  · rw [headedTexts_block, headedTexts_flatMap]

theorem flatMap_getterLines (read : List Line → List String) (hNil : read [] = []) (fields : List Field) :
    (fields.flatMap fun field => read (field.getterLines names))
      = (oneofs fields).flatMap fun o => read (Field.getterLines names (.oneof o)) := by
  induction fields with
  | nil => rfl
  | cons field rest ih =>
    rw [List.flatMap_cons, ih]
    cases field with
    | plain field =>
      rw [Field.getterLines, hNil]
      rfl
    | oneof o => rfl

theorem headedTexts_methods (depth : Nat) (head : List Char) (s : Struct) :
    headedTexts (depth + 1) head (s.methods names)
      = (oneofs s.fields).flatMap fun o => headedTexts depth head (Field.getterLines names (.oneof o)) := by
  have hFields := flatMap_getterLines names (headedTexts depth head) rfl s.fields
  unfold Struct.methods
  split
  · rw [headedTexts_append, headedTexts_block, headedTexts_flatMap, hFields]
    exact List.append_nil _
  · rename_i hNone
    have hOneofs : oneofs s.fields = [] := by
      rw [oneofs, List.filterMap_eq_nil_iff]
      intro field hField
      cases field with
      | plain field => rfl
      | oneof o => exact absurd (List.any_eq_true.mpr ⟨_, hField, rfl⟩) hNone
    rw [hOneofs]
    rfl

section

variable {oneof : OneofField} {member : Member}

theorem methodNames_getterLines (h : isSchemaName member.getter = true) :
    methodNames 0 (member.getterLines names oneof) = [member.getter] := by
  have hMark : '(' ∉ member.getter.toList := not_mem_of_isSchemaName h (by decide)
  have hText : "pub fn " ++ member.getter ++ "(&self) -> Option<&" ++ member.element.text names ++ "> \x7b"
      = "pub fn " ++ member.getter ++ ("(&self) -> Option<&" ++ member.element.text names ++ "> \x7b") := by
    simp only [String.append_assoc]
  rw [methodNames, wordsBehind, Member.getterLines, headedTexts_block_zero _ _ (by decide), ← wordsBehind,
    wordsBehind_code hMark (by simp) hText, wordsBehind_nil]

theorem matchedFields_getterLines (h : isSchemaName oneof.name = true) :
    matchedFields 0 (member.getterLines names oneof) = [fieldIdentifier oneof.name] := by
  have hMark : ' ' ∉ (fieldIdentifier oneof.name).toList := not_mem_fieldIdentifier h (by decide) (by decide)
  rw [matchedFields, wordsBehind, Member.getterLines, headedTexts_block, headedTexts_block_zero _ _ (by decide),
    ← wordsBehind, wordsBehind_code hMark (by simp) rfl, wordsBehind_nil]

theorem returningArms_getterLines : returningArms 0 (member.getterLines names oneof)
    = ["Some(" ++ oneof.enumName ++ "::" ++ member.variant ++ "(value)) => Some(value),"] := by
  have hHead : "Some(".toList <+:
      ("Some(" ++ oneof.enumName ++ "::" ++ member.variant ++ "(value)) => Some(value),").toList := by
    simp only [String.toList_append, List.append_assoc]
    exact List.prefix_append _ _
  rw [returningArms, Member.getterLines, headedTexts_block, headedTexts_block, headedTexts_code hHead,
    headedTexts_other (by decide), headedTexts_nil]

theorem variantNames_variantLines (h : isSchemaName member.variant = true) :
    (wordsBehind 0 "" '(' (member.variantLines names)).filter isSchemaName = [member.variant] := by
  have hMark : '(' ∉ member.variant.toList := not_mem_of_isSchemaName h (by decide)
  have hVariant : member.variant ++ "(" ++ member.payload names ++ "),"
      = "" ++ member.variant ++ ("(" ++ member.payload names ++ "),") := by
    simp only [String.append_assoc, String.empty_append]
  have hHead : "#[serde(rename = " = "" ++ "#[serde" ++ "(rename = " := by decide
  have hRename : renameAttribute member.wireName
      = "" ++ "#[serde" ++ ("(rename = " ++ Quoted.encode member.wireName ++ ")]") := by
    unfold renameAttribute
    rw [hHead]
    simp only [String.append_assoc]
  have hWords : wordsBehind 0 "" '(' (member.variantLines names) = ["#[serde", member.variant] := by
    rw [wordsBehind, Member.variantLines, headedTexts_append, headedTexts_documentation, List.nil_append, ← wordsBehind,
      wordsBehind_code (by decide) (by simp) hRename, wordsBehind_code hMark (by simp) hVariant, wordsBehind_nil]
  have hAttribute : isSchemaName "#[serde" = false := by decide
  rw [hWords, List.filter_cons_of_neg (by simp [hAttribute]), List.filter_cons_of_pos h, List.filter_nil]

theorem variantNames_enumLines (h : ∀ member ∈ oneof.members, isSchemaName member.variant = true) :
    variantNames 0 (oneof.enumLines names) = oneof.members.map (·.variant) := by
  have hEnum : headedTexts 1 "".toList (oneof.enumLines names)
      = headedTexts 0 "".toList (oneof.members.flatMap (Member.variantLines names)) := by
    rw [OneofField.enumLines, headedTexts_append, headedTexts_outer, headedTexts_block]
    exact List.append_nil _
  rw [variantNames, wordsBehind, hEnum, ← wordsBehind, wordsBehind_flatMap, List.filter_flatMap, List.map_eq_flatMap]
  exact List.flatMap_congr fun member hMember => variantNames_variantLines names (h member hMember)

end

end

end ProtoBind.Emit
