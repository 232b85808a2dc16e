import ProtoBind.Emit.Model
import ProtoBind.Proofs.DeclaredNames
import ProtoBind.Proofs.Stages
import ProtoBind.Proofs.TypeNames

/-!
# Types that share a name

The names that the structures of a model are declared under, read off its lines, and when two types of
a schema file get the same one.
-/

set_option autoImplicit false

namespace ProtoBind.Emit

open Naming Text

def structHead : List Char := "pub struct ".toList

def structName? : Line → Option String
  | .code 0 text =>
    if structHead.isPrefixOf text.toList then
      some (String.ofList ((text.toList.drop structHead.length).takeWhile isIdentifierRest))
    else none
  | _ => none

def structNames (lines : List Line) : List String := lines.filterMap structName?

theorem structNames_eq (lines : List Line) : structNames lines = declaredNames structHead lines := by
  refine List.filterMap_congr ?_
  rintro (⟨_ | depth, text⟩ | _ | _ | _) _ <;> rfl

/-- What the declarations of types begin with: neither with the words of other items, nor with those of attributes. -/
structure HeadsTypes (head : List Char) : Prop where
  use : Differs head "use "
  passing : Differs head "pub use "
  constant : Differs head "pub const "
  implementation : Differs head "impl "
  test : Differs head "fn "
  mark : Differs head "#["
  close : Differs head "\x7d"

section

variable {head : List Char} (h : HeadsTypes head)
include h

theorem declaredNames_modelUses (params : Parameters) (model : ModelFile) :
    declaredNames head (model.uses params) = [] := by
  have hSerde : declaredNames head [code "use serde::\x7bDeserialize, Serialize\x7d;"] = [] :=
    declaredNames_cons_of_none (declaredName?_of_differs (h.use.append "serde::\x7bDeserialize, Serialize\x7d;")) []
  have hMap : declaredNames head [code "use std::collections::HashMap;"] = [] :=
    declaredNames_cons_of_none (declaredName?_of_differs (h.use.append "std::collections::HashMap;")) []
  unfold ModelFile.uses
  rw [declaredNames_append, declaredNames_append, declaredNames_packageUses h.use, List.append_nil]
  split
  · split
    · rw [hSerde, hMap, List.nil_append]
    · rw [hSerde]
      rfl
  · split
    · rw [hMap]
      rfl
    · rfl

theorem declaredNames_aliasLines (model : ModelFile) : declaredNames head model.aliasLines = [] := by
  have hItem : ∀ line ∈ model.aliases.flatMap (fun a => a.names.map fun name =>
      code ("pub use " ++ model.names.get a.importPath ++ "::" ++ name ++ ";")),
      declaredName? head line = none := by
    intro line hLine
    obtain ⟨a, _, hLine⟩ := List.mem_flatMap.mp hLine
    obtain ⟨name, _, rfl⟩ := List.mem_map.mp hLine
    exact declaredName?_of_differs ((((h.passing.append _).append _).append _).append _)
  unfold ModelFile.aliasLines
  dsimp only
  split
  · rfl
  · rw [declaredNames_append, declaredNames_eq_nil hItem]
    rfl

theorem declaredNames_constants (file : FileNode) (e : EnumNode) (name : String) (i : Nat)
    (values : List (EnumValueDecl × String)) :
    declaredNames head (EnumLines.constants file e name i values) = [] := by
  induction values generalizing i with
  | nil => rfl
  | cons value rest ih =>
    rw [EnumLines.constants, declaredNames_append, ih, EnumLines.constant, declaredNames_append,
      declaredNames_documentation, List.append_nil, List.nil_append]
    refine declaredNames_eq_nil ?_
    intro line hLine
    rw [List.mem_singleton.mp hLine]
    exact declaredName?_of_differs ((((((((h.constant.append _).append _).append _).append _).append
      _).append _).append _).append _)

/-- Of the lines of an enum, only one can declare a type. -/
theorem headedTexts_enumLines (file : FileNode) (e : EnumNode) : headedTexts 0 head (enumLines file e)
    = headedTexts 0 head [code ("pub struct " ++ typePathName e.typeName ++ "(pub i32);")] := by
  have hDerive : Differs head ("#[derive(Clone, Copy, Debug, Default, PartialEq, Eq, Hash, PartialOrd, Ord, "
      ++ "Serialize, Deserialize)]") :=
    (h.mark.append "derive(Clone, Copy, Debug, Default, PartialEq, Eq, Hash, PartialOrd, Ord, ").append _
  have hTransparent : Differs head "#[serde(transparent)]" := h.mark.append "serde(transparent)]"
  have hImpl : declaredNames head (block ("impl " ++ typePathName e.typeName ++ " \x7b")
      (EnumLines.nameMethod e.decl.values) "\x7d") = [] :=
    declaredNames_block_of_differs ((h.implementation.append _).append _) h.close _
  unfold enumLines
  simp only [headedTexts_append, headedTexts_eq_nil (declaredNames_documentation _ _),
    headedTexts_eq_nil (declaredNames_constants h _ _ _ _ _), headedTexts_eq_nil hImpl]
  rw [headedTexts_other hDerive, headedTexts_other hTransparent, ← List.singleton_append, headedTexts_append]
  simp [headedTexts, headedText?]

theorem declaredNames_enumLines (file : FileNode) (e : EnumNode) : declaredNames head (enumLines file e)
    = declaredNames head [code ("pub struct " ++ typePathName e.typeName ++ "(pub i32);")] := by
  rw [declaredNames_eq_map, headedTexts_enumLines h, ← declaredNames_eq_map]

theorem declaredNames_methods (names : LocalNames) (s : Struct) : declaredNames head (s.methods names) = [] := by
  unfold Struct.methods
  split
  · rw [declaredNames_append, declaredNames_block_of_differs ((h.implementation.append _).append _) h.close]
    rfl
  · rfl

theorem declaredNames_defaultTest : declaredNames head ModelFile.defaultTest = [] :=
  declaredNames_block_of_differs (h.test.append "is_default<T: Default + PartialEq>(value: &T) -> bool \x7b")
    h.close _

/-- What is in front of a structure declares nothing, and neither do its methods. -/
theorem headedTexts_structLines (names : LocalNames) (s : Struct) : headedTexts 0 head (s.lines names)
    = headedTexts 0 head (s.declaration names)
      ++ s.fields.flatMap fun field => headedTexts 0 head (field.enumLines names) := by
  have hDerive : Differs head "#[derive(Clone, Debug, Default, PartialEq, Serialize, Deserialize)]" :=
    h.mark.append "derive(Clone, Debug, Default, PartialEq, Serialize, Deserialize)]"
  have hDefault : Differs head "#[serde(default)]" := h.mark.append "serde(default)]"
  have hGroup : headedTexts 0 head (if s.group then [.doc 0 Struct.groupNote] else []) = [] := by
    split <;> rfl
  unfold Struct.lines
  simp only [headedTexts_append, headedTexts_eq_nil (declaredNames_documentation _ _), hGroup, headedTexts_flatMap,
    headedTexts_eq_nil (declaredNames_methods h names s)]
  rw [headedTexts_other hDerive, headedTexts_other hDefault]
  simp [headedTexts, headedText?]

theorem declaredNames_structLines (names : LocalNames) (s : Struct) : declaredNames head (s.lines names)
    = declaredNames head (s.declaration names)
      ++ s.fields.flatMap fun field => declaredNames head (field.enumLines names) := by
  simp only [declaredNames_eq_map, headedTexts_structLines h, List.map_append, List.map_flatMap]

/-- The types that a model declares are those that its enums and structures declare. -/
theorem headedTexts_modelLines (params : Parameters) (model : ModelFile) : headedTexts 0 head (model.lines params)
    = model.enums.flatMap (fun e => headedTexts 0 head (enumLines model.file e))
      ++ model.structs.flatMap fun s => headedTexts 0 head (s.lines model.names) := by
  have hTest : headedTexts 0 head (if model.usesDefaultTest then ModelFile.defaultTest else []) = [] := by
    split
    · exact headedTexts_eq_nil (declaredNames_defaultTest h)
    · rfl
  unfold ModelFile.lines ModelFile.body
  simp only [headedTexts_append, headedTexts_eq_nil (declaredNames_header _),
    headedTexts_eq_nil (declaredNames_modelUses h params model), headedTexts_eq_nil (declaredNames_aliasLines h model),
    headedTexts_flatMap, hTest]
  simp [headedTexts, headedText?]

theorem declaredNames_modelLines (params : Parameters) (model : ModelFile) :
    declaredNames head (model.lines params)
      = model.enums.flatMap (fun e => declaredNames head (enumLines model.file e))
        ++ model.structs.flatMap fun s => declaredNames head (s.lines model.names) := by
  simp only [declaredNames_eq_map, headedTexts_modelLines h, List.map_append, List.map_flatMap]

end

/-! ### Structures -/

theorem headsTypes_struct : HeadsTypes structHead := by
  constructor
  all_goals decide

theorem declaredName?_struct {name : String} (rest : String)
    (hName : ∀ c ∈ name.toList, isIdentifierRest c = true)
    (hRest : rest.toList.head?.all fun c => !isIdentifierRest c) :
    declaredName? structHead (code ("pub struct " ++ name ++ rest)) = some name :=
  declaredName?_code hName hRest

theorem structNames_enumLines (file : FileNode) {e : EnumNode}
    (hName : ∀ c ∈ (typePathName e.typeName).toList, isIdentifierRest c = true) :
    declaredNames structHead (enumLines file e) = [typePathName e.typeName] := by
  rw [declaredNames_enumLines headsTypes_struct,
    declaredNames_cons_of_some (declaredName?_struct "(pub i32);" hName (by decide))]
  rfl

theorem structNames_declaration (names : LocalNames) {s : Struct}
    (hName : ∀ c ∈ s.name.toList, isIdentifierRest c = true) :
    declaredNames structHead (s.declaration names) = [s.name] := by
  unfold Struct.declaration
  split
  · rw [declaredNames_cons_of_some (declaredName?_struct " \x7b\x7d" hName (by decide))]
    rfl
  · rw [declaredNames_block, declaredNames_cons_of_some (declaredName?_struct " \x7b" hName (by decide)),
      declaredNames_cons_of_none (declaredName?_of_differs (by decide))]
    rfl

theorem structNames_fieldEnumLines (names : LocalNames) (field : Field) :
    declaredNames structHead (field.enumLines names) = [] := by
  cases field with
  | plain field => rfl
  | oneof field =>
    have hEnum : Differs structHead "pub enum " := by decide
    have hDerive : Differs structHead "#[derive(Clone, Debug, PartialEq, Serialize, Deserialize)]" := by
      decide +kernel
    rw [Field.enumLines, OneofField.enumLines, declaredNames_append,
      declaredNames_cons_of_none (declaredName?_of_differs hDerive),
      declaredNames_block_of_differs ((hEnum.append _).append _) (by decide)]
    rfl

theorem structNames_structLines (names : LocalNames) {s : Struct}
    (hName : ∀ c ∈ s.name.toList, isIdentifierRest c = true) :
    declaredNames structHead (s.lines names) = [s.name] := by
  rw [declaredNames_structLines headsTypes_struct, structNames_declaration names hName]
  simp [structNames_fieldEnumLines]

/-- The structures that the lines of a model declare are those of its enums and messages. -/
theorem structNames_lines (params : Parameters) {model : ModelFile}
    (hEnums : ∀ e ∈ model.enums, ∀ c ∈ (typePathName e.typeName).toList, isIdentifierRest c = true)
    (hStructs : ∀ s ∈ model.structs, ∀ c ∈ s.name.toList, isIdentifierRest c = true) :
    declaredNames structHead (model.lines params)
      = (model.enums.map fun e => typePathName e.typeName) ++ model.structs.map (·.name) := by
  rw [declaredNames_modelLines headsTypes_struct, List.map_eq_flatMap, List.map_eq_flatMap,
    List.flatMap_congr fun e hE => structNames_enumLines model.file (hEnums e hE),
    List.flatMap_congr fun s hS => structNames_structLines model.names (hStructs s hS)]

namespace Scope

def declaredTypes (scope : Scope) : List (List String) :=
  scope.file.enums.map (·.typeName) ++ scope.declaredMessages.map (·.typeName)

theorem map_name_structs (file : FileNode) (typeNames : List String) (messages : List TypedMessage) :
    (structs file typeNames messages).map (·.name)
      = messages.map fun message => typePathName message.node.typeName := by
  induction messages generalizing typeNames with
  | nil => rfl
  | cons message rest ih => rw [structs, List.map_cons, List.map_cons, ih]

theorem node_of_typedMessage {scope : Scope} {message : MessageNode} {typed : TypedMessage}
    (h : scope.typedMessage message = .ok typed) : typed.node = message := by
  unfold typedMessage at h
  split at h
  · cases h
    rfl
  · cases h

theorem map_node_typedMessages {scope : Scope} {messages : List TypedMessage}
    (h : scope.typedMessages = .ok messages) : messages.map (·.node) = scope.declaredMessages := by
  rw [typedMessages] at h
  generalize scope.declaredMessages = declared at h ⊢
  have hNodes := forall₂_of_mapM h
  clear h
  induction hNodes with
  | nil => rfl
  | cons hHead _ ih => rw [List.map_cons, node_of_typedMessage hHead, ih]

/-- The structures of a model are called by the paths of the types of the file. -/
theorem names_of_ofScope {scope : Scope} {model : ModelFile} (h : ModelFile.ofScope scope = .ok model) :
    (model.enums.map fun e => typePathName e.typeName) ++ model.structs.map (·.name)
      = scope.declaredTypes.map typePathName := by
  unfold ModelFile.ofScope at h
  split at h
  · cases h
  · rename_i messages hMessages
    cases h
    rw [map_name_structs, declaredTypes, ← map_node_typedMessages hMessages, List.map_append,
      List.map_map, List.map_map, List.map_map]
    rfl

end Scope

/-- The structures that the lines of a model declare are called by the paths of the types of the file. -/
theorem structNames_types (params : Parameters) {scope : Scope} {model : ModelFile}
    (hModel : ModelFile.ofScope scope = .ok model)
    (hNames : ∀ path ∈ scope.declaredTypes, ∀ name ∈ path, isSchemaName name = true) :
    declaredNames structHead (model.lines params) = scope.declaredTypes.map typePathName := by
  have hDeclared := Scope.names_of_ofScope hModel
  have hChars : ∀ name ∈ scope.declaredTypes.map typePathName,
      ∀ c ∈ name.toList, isIdentifierRest c = true := by
    intro name hName c hMem
    obtain ⟨path, hPath, rfl⟩ := List.mem_map.mp hName
    exact isIdentifierRest_of_isNameChar (isNameChar_of_mem_typePathName (hNames path hPath) hMem)
  rw [← hDeclared] at hChars
  rw [structNames_lines params, hDeclared]
  · intro e hE
    exact hChars _ (List.mem_append_left _ (List.mem_map_of_mem hE))
  · intro s hS
    exact hChars _ (List.mem_append_right _ (List.mem_map_of_mem hS))

/-- The model of a file whose types have schema names declares two structures under one name exactly
if the paths of two of these types are spelled alike. -/
theorem structNames_nodup_iff (params : Parameters) {scope : Scope} {model : ModelFile}
    (hModel : ModelFile.ofScope scope = .ok model)
    (hNames : ∀ path ∈ scope.declaredTypes, ∀ name ∈ path, isSchemaName name = true) :
    (structNames (model.lines params)).Nodup ↔ (scope.declaredTypes.map flatSpelling).Nodup := by
  rw [structNames_eq, structNames_types params hModel hNames, List.Nodup, List.pairwise_map, List.Nodup,
    List.pairwise_map]
  simp only [Ne, typePathName_inj]

def bareMessage (name : String) (nested : List MessageDecl) : MessageDecl :=
  .mk name [] nested [] [] [] [] [] false false []

/-- A file with a message `Inner` in a message `Outer`, and a message `OuterInner`. -/
def nestedClash : FileDecl where
  name := "a.proto"
  messages := [bareMessage "Outer" [bareMessage "Inner" []], bareMessage "OuterInner" []]

def singleFileScope (file : FileDecl) : Scope where
  graph := ⟨[{ decl := file, generate := true, messages := file.messageNodes, enums := file.enumNodes }], [0]⟩
  index := {}
  place := 0
  pass := .model

/-- Different types of one file that are declared under one name. -/
theorem structNames_nestedClash :
    (singleFileScope nestedClash).declaredTypes = [["Outer"], ["Outer", "Inner"], ["OuterInner"]] ∧
      ∃ model, ModelFile.ofScope (singleFileScope nestedClash) = .ok model ∧
        ¬ (structNames (model.lines {})).Nodup := by
  obtain ⟨model, hModel⟩ : ∃ model, ModelFile.ofScope (singleFileScope nestedClash) = .ok model := ⟨_, rfl⟩
  have hNames : ∀ path ∈ (singleFileScope nestedClash).declaredTypes, ∀ name ∈ path,
      isSchemaName name = true := by decide
  refine ⟨rfl, model, hModel, ?_⟩
  intro h
  have hSpelled := (structNames_nodup_iff {} hModel hNames).mp h
  exact absurd hSpelled (by decide)

end ProtoBind.Emit
