import Mathlib.Logic.Relation
import ProtoBind.Proofs.AssemblySteps
import ProtoBind.Proofs.CodeTexts
import ProtoBind.Proofs.ResolvedTypes

/-!
# Types of finite size

Messages may hold themselves and each other in any way. What stands for them is still of finite size: wherever a
type names what stands for a message, it does so inside of a box, a vector or a map, so no value of a type is a
part of a value of the same type.
-/

set_option autoImplicit false

namespace ProtoBind.Emit

open Naming Text

/-- What generated code declares as a type: what stands for a message or an enum, and the enum of the members of a
oneof. -/
inductive DeclaredType where
  | symbol (s : Symbol)
  | choice (file i : Nat) (oneof : Int)
  deriving DecidableEq

namespace DeclaredType

def isMessage : DeclaredType → Bool
  | .symbol s => s.isMessage
  | .choice _ _ _ => false

/-- How many types below it may be parts of a declared type, one of the other. -/
def height : DeclaredType → Nat
  | .symbol s => if s.isMessage then 2 else 0
  | .choice _ _ _ => 1

end DeclaredType

inductive TypeTree where
  | builtIn (text : String)
  | reference (r : Reference)
  /-- The enum of the members of a oneof. -/
  | choice (name : String) (file i : Nat) (oneof : Int)
  | option (inner : TypeTree)
  | box (inner : TypeTree)
  | vec (inner : TypeTree)
  | hashMap (key value : TypeTree)

namespace TypeTree

def text (names : LocalNames) : TypeTree → String
  | .builtIn text => text
  | .reference r => r.text names
  | .choice name _ _ _ => name
  | .option inner => "Option<" ++ inner.text names ++ ">"
  | .box inner => "Box<" ++ inner.text names ++ ">"
  | .vec inner => "Vec<" ++ inner.text names ++ ">"
  | .hashMap key value => "HashMap<" ++ key.text names ++ ", " ++ value.text names ++ ">"

def mentioned : TypeTree → List DeclaredType
  | .builtIn _ => []
  | .reference r => [.symbol r.symbol]
  | .choice _ file i oneof => [.choice file i oneof]
  | .option inner | .box inner | .vec inner => inner.mentioned
  | .hashMap key value => key.mentioned ++ value.mentioned

/-- The declared types that occur in a type outside of boxes, vectors and maps, so that values of them are parts of
its values. -/
def inlined : TypeTree → List DeclaredType
  | .builtIn _ => []
  | .reference r => [.symbol r.symbol]
  | .choice _ file i oneof => [.choice file i oneof]
  | .option inner => inner.inlined
  | .box _ | .vec _ | .hashMap _ _ => []

end TypeTree

/-! ### Types of fields and members -/

def Element.tree : Element → TypeTree
  | .scalar type => .builtIn type.text
  | .enum type | .message type => .reference type
  | .freeForm form => .builtIn form.text

def Shape.tree : Shape → TypeTree
  | .one element => element.tree
  | .optional element => .option element.tree
  | .boxed message => .option (.box (.reference message))
  | .many element => .vec element.tree
  | .map key value => .hashMap key.tree value.tree

def Member.tree (member : Member) : TypeTree :=
  match member.element with
  | .message message => .box (.reference message)
  | element => element.tree

def Field.tree (file i : Nat) : Field → TypeTree
  | .plain field => field.shape.tree
  | .oneof o => .option (.choice o.enumName file i o.index)

section

variable (names : LocalNames)

theorem Element.text_tree (element : Element) : element.tree.text names = element.text names := by
  cases element <;> rfl

theorem Shape.text_tree (shape : Shape) : shape.tree.text names = shape.text names := by
  cases shape with
  | one element => exact element.text_tree names
  | boxed message =>
    have hOpening : "Option<Box<" = "Option<" ++ "Box<" := rfl
    have hClosing : ">>" = ">" ++ ">" := rfl
    rw [text, hOpening, hClosing]
    simp only [tree, TypeTree.text, String.append_assoc]
  | optional element | many element => rw [tree, TypeTree.text, element.text_tree, text]
  | map key value => rw [tree, TypeTree.text, key.text_tree, value.text_tree, text]

theorem Member.text_tree (member : Member) : member.tree.text names = member.payload names := by
  unfold tree payload
  cases member.element <;> rfl

theorem Element.mentioned_tree (element : Element) :
    element.tree.mentioned = element.references.map fun r => .symbol r.symbol := by
  cases element <;> rfl

theorem Shape.mentioned_tree (shape : Shape) :
    shape.tree.mentioned = shape.references.map fun r => .symbol r.symbol := by
  cases shape with
  | one element | optional element | many element => exact element.mentioned_tree
  | boxed message => rfl
  | map key value =>
    rw [references, List.map_append, ← key.mentioned_tree, ← value.mentioned_tree]
    rfl

theorem Member.mentioned_tree (member : Member) :
    member.tree.mentioned = member.element.references.map fun r => .symbol r.symbol := by
  unfold tree
  cases member.element <;> rfl

end

/-! ### Structures -/

def StandsForMessage (g : Graph) (index : NameIndex) (file i : Nat) (s : Struct) : Prop :=
  ∃ message, g.message? file i = some message ∧ Assembles ⟨g, index, file, .model⟩ message s

/-- The types in the structure for a message and in the enums of its oneofs are those that are printed, name all that
the fields refer to, and have messages inside of boxes, vectors and maps only. -/
structure Indirect (names : LocalNames) (file i : Nat) (s : Struct) : Prop where
  fieldsPrinted : ∀ field ∈ s.fields, ∃ above name, codeTexts (field.lines names)
    = [above, "pub " ++ name ++ ": " ++ (field.tree file i).text names ++ ","]
  membersPrinted : ∀ o, .oneof o ∈ s.fields → ∀ member ∈ o.members, ∃ above,
    codeTexts (member.variantLines names) = [above, member.variant ++ "(" ++ member.tree.text names ++ "),"]
  plainMentioned : ∀ field, .plain field ∈ s.fields →
    (Field.tree file i (.plain field)).mentioned = field.shape.references.map fun r => .symbol r.symbol
  memberMentioned : ∀ o, .oneof o ∈ s.fields → ∀ member ∈ o.members,
    member.tree.mentioned = member.element.references.map fun r => .symbol r.symbol
  fields : ∀ field ∈ s.fields, ∀ a ∈ (field.tree file i).inlined, a.isMessage = false
  members : ∀ o, .oneof o ∈ s.fields → ∀ member ∈ o.members, ∀ a ∈ member.tree.inlined, a.isMessage = false

/-- Values of the one declared type have values of the other one as parts. -/
inductive Holds (g : Graph) (index : NameIndex) : DeclaredType → DeclaredType → Prop where
  | field {file i : Nat} {s : Struct} {field : Field} {a : DeclaredType}
      (hStruct : StandsForMessage g index file i s) (hField : field ∈ s.fields)
      (hInlined : a ∈ (field.tree file i).inlined) : Holds g index (.symbol (.message file i)) a
  | member {file i : Nat} {s : Struct} {o : OneofField} {member : Member} {a : DeclaredType}
      (hStruct : StandsForMessage g index file i s) (hOneof : .oneof o ∈ s.fields) (hMember : member ∈ o.members)
      (hInlined : a ∈ member.tree.inlined) : Holds g index (.choice file i o.index) a

theorem codeTexts_field (names : LocalNames) (file i : Nat) (field : Field) : ∃ above name,
    codeTexts (field.lines names) = [above, "pub " ++ name ++ ": " ++ (field.tree file i).text names ++ ","] := by
  cases field with
  | plain plain =>
    refine ⟨plain.serdeAttribute, fieldIdentifier plain.name, ?_⟩
    rw [Field.lines, PlainField.lines, codeTexts_append, codeTexts_documentation, Field.tree, plain.shape.text_tree]
    rfl
  | oneof o =>
    have hClosing : ">," = ">" ++ "," := rfl
    refine ⟨"#[serde(flatten)]", fieldIdentifier o.name, ?_⟩
    rw [Field.lines, OneofField.lines, codeTexts_append, codeTexts_documentation, hClosing]
    simp only [codeTexts_code, codeTexts_nil, List.nil_append, Field.tree, TypeTree.text, List.cons.injEq, and_true,
      true_and]
    have hOpening : ": Option<" = ": " ++ "Option<" := rfl
    rw [hOpening]
    simp only [String.append_assoc]

theorem codeTexts_member (names : LocalNames) (member : Member) : ∃ above,
    codeTexts (member.variantLines names) = [above, member.variant ++ "(" ++ member.tree.text names ++ "),"] := by
  refine ⟨renameAttribute member.wireName, ?_⟩
  rw [Member.variantLines, codeTexts_append, codeTexts_documentation, member.text_tree]
  rfl

/-! ### Inlined types -/

section

variable {scope : Scope} {field : FieldDecl}

theorem type_of_element_enum {r : Reference} (h : scope.element field = .ok (.enum r)) : field.type = .enum := by
  rw [Scope.element] at h
  cases hType : field.type with
  | enum => rfl
  | message | group =>
    rw [hType] at h
    dsimp only at h
    split at h
    · cases h
    · cases hFound : scope.resolve field.typeName with
      | error e =>
        rw [hFound] at h
        cases h
      | ok found =>
        rw [hFound] at h
        cases h
  | _ =>
    rw [hType] at h
    cases h

theorem inlined_single {element : Element} {a : DeclaredType} (h : a ∈ (scope.single field element).tree.inlined) :
    ∃ r, element = .enum r ∧ a = .symbol r.symbol := by
  unfold Scope.single at h
  split at h
  · cases h
  · cases h
  · cases h
  · rename_i hMessage _ _
    have hElement : a ∈ element.tree.inlined := by
      split at h <;> exact h
    cases element with
    | enum r => exact ⟨r, rfl, List.mem_singleton.mp hElement⟩
    | message r => exact absurd rfl (hMessage r)
    | scalar type | freeForm form => cases hElement

/-- Outside of oneofs, only enums are inlined. -/
theorem inlined_shape {shape : Shape} {a : DeclaredType} (hShape : scope.shape field = .ok shape)
    (h : a ∈ shape.tree.inlined) : ∃ r, scope.element field = .ok (.enum r) ∧ a = .symbol r.symbol := by
  obtain ⟨pair, hPair, hShape⟩ := bind_ok_iff.mp hShape
  cases pair with
  | some pair =>
    obtain ⟨k, -, hShape⟩ := bind_ok_iff.mp hShape
    obtain ⟨v, -, hShape⟩ := bind_ok_iff.mp hShape
    cases hShape
    cases h
  | none =>
    obtain ⟨element, hElement, hShape⟩ := bind_ok_iff.mp hShape
    split at hShape
    · cases hShape
      cases h
    · cases hShape
      obtain ⟨r, rfl, hSymbol⟩ := inlined_single h
      exact ⟨r, hElement, hSymbol⟩

/-- In oneofs, only enums are inlined. -/
theorem inlined_member {member : Member} {a : DeclaredType} (h : a ∈ member.tree.inlined) :
    ∃ r, member.element = .enum r ∧ a = .symbol r.symbol := by
  unfold Member.tree at h
  split at h
  · cases h
  · rename_i hMessage
    cases hElement : member.element with
    | enum r =>
      rw [hElement] at h
      exact ⟨r, rfl, List.mem_singleton.mp h⟩
    | message r => exact absurd hElement (hMessage r)
    | scalar type | freeForm form =>
      rw [hElement] at h
      cases h

end

section

variable {g : Graph} {index : NameIndex} {file i : Nat} {s : Struct} {a : DeclaredType}

/-- The fields and members of a structure stand for fields of the graph with their roles. -/
theorem exists_gathered (hStruct : StandsForMessage g index file i s) : ∃ typed, Gathered typed s.fields ∧
    ∀ t ∈ typed, ∃ field ∈ g.fields, Scope.role ⟨g, index, file, .model⟩ field = .ok t.role := by
  obtain ⟨message, hMessage, -, typed, used, hTyped, hFields⟩ := hStruct
  refine ⟨typed, hFields ▸ gathered_assemble _ message used typed, fun t hT => ?_⟩
  obtain ⟨field, hField, -, hRole⟩ := exists_of_forall₂_right hTyped t hT
  exact ⟨field, List.mem_flatMap.mpr ⟨message, Graph.mem_messages hMessage, hField⟩, hRole⟩

/-- What a plain field inlines is an enum that a field of the message names. -/
theorem exists_field_of_plain (hStruct : StandsForMessage g index file i s) {plain : PlainField}
    (hPlain : .plain plain ∈ s.fields) (h : a ∈ plain.shape.tree.inlined) :
    ∃ field ∈ g.fields, ∃ r, Scope.element ⟨g, index, file, .model⟩ field = .ok (.enum r) ∧ a = .symbol r.symbol := by
  obtain ⟨typed, hGathered, hTyped⟩ := exists_gathered hStruct
  have hMem : plain ∈ plains s.fields := List.mem_filterMap.mpr ⟨_, hPlain, rfl⟩
  obtain ⟨t, hT, shape, hPlainRole, name, rfl⟩ := exists_of_forall₂_right hGathered.plain plain hMem
  obtain ⟨field, hField, hRole⟩ := hTyped t (List.mem_of_mem_filter hT)
  rw [hPlainRole] at hRole
  rcases role_ok_cases hRole with ⟨-, oneof, element, -, hMember⟩ | ⟨found, hShape, hSame⟩
  · cases hMember
  · cases hSame
    exact ⟨field, hField, inlined_shape hShape h⟩

/-- What a member inlines is an enum that a field of the message names. -/
theorem exists_field_of_member (hStruct : StandsForMessage g index file i s) {o : OneofField}
    (hOneof : .oneof o ∈ s.fields) {member : Member} (hMember : member ∈ o.members) (h : a ∈ member.tree.inlined) :
    ∃ field ∈ g.fields, ∃ r, Scope.element ⟨g, index, file, .model⟩ field = .ok (.enum r) ∧ a = .symbol r.symbol := by
  obtain ⟨typed, hGathered, hTyped⟩ := exists_gathered hStruct
  have hMem : o ∈ oneofs s.fields := List.mem_filterMap.mpr ⟨_, hOneof, rfl⟩
  obtain ⟨t, hT, element, hMemberRole, n, rfl⟩ := exists_of_forall₂_right (hGathered.members o hMem) member hMember
  obtain ⟨field, hField, hRole⟩ := hTyped t (List.mem_of_mem_filter hT)
  obtain ⟨r, hEnum, hSymbol⟩ := inlined_member h
  have hElement : element = .enum r := hEnum
  rw [hMemberRole, hElement] at hRole
  rcases role_ok_cases hRole with ⟨-, oneof, found, hFound, hSame⟩ | ⟨shape, -, hPlain⟩
  · cases hSame
    exact ⟨field, hField, r, hFound, hSymbol⟩
  · cases hPlain

end

/-! ### Chains of parts -/

theorem isMessage_of_isEnum {s : Symbol} (h : s.isEnum = true) : s.isMessage = false := by
  cases s with
  | enum file i => rfl
  | message file i | extension file i | imported file target => cases h

section

variable {g : Graph} {index : NameIndex}
  (hEnums : ∀ f ∈ g.fields, f.type = .enum → index.leadsTo Symbol.isEnum f.typeName = true)
include hEnums

theorem isEnum_of_element {file : Nat} {field : FieldDecl} {r : Reference} (hField : field ∈ g.fields)
    (h : Scope.element ⟨g, index, file, .model⟩ field = .ok (.enum r)) : r.symbol.isEnum = true := by
  obtain ⟨hResolve, -⟩ := resolve_of_element h (List.mem_singleton_self r)
  obtain ⟨s, hGet, hKind⟩ := NameIndex.leadsTo_iff.mp (hEnums field hField (type_of_element_enum h))
  rw [(resolve_eq_ok_iff.mp hResolve).1] at hGet
  exact Except.ok.inj hGet ▸ hKind

/-- A structure has enums and the enums of its own oneofs as parts, the enum of a oneof only enums. -/
theorem holds_cases {a b : DeclaredType} (h : Holds g index a b) :
    (∃ s, s.isEnum = true ∧ b = .symbol s) ∨
      ∃ file i oneof, a = .symbol (.message file i) ∧ b = .choice file i oneof := by
  cases h with
  | @field file i s field a hStruct hField hInlined =>
    cases field with
    | plain plain =>
      obtain ⟨field, hMem, r, hElement, rfl⟩ := exists_field_of_plain hStruct hField hInlined
      exact .inl ⟨r.symbol, isEnum_of_element hEnums hMem hElement, rfl⟩
    | oneof o => exact .inr ⟨file, i, o.index, rfl, List.mem_singleton.mp hInlined⟩
  | @member file i s o member a hStruct hOneof hMember hInlined =>
    obtain ⟨field, hMem, r, hElement, rfl⟩ := exists_field_of_member hStruct hOneof hMember hInlined
    exact .inl ⟨r.symbol, isEnum_of_element hEnums hMem hElement, rfl⟩

theorem isMessage_of_holds {a b : DeclaredType} (h : Holds g index a b) : b.isMessage = false := by
  rcases holds_cases hEnums h with ⟨s, hEnum, rfl⟩ | ⟨file, i, oneof, -, rfl⟩
  · exact isMessage_of_isEnum hEnum
  · rfl

theorem height_of_holds {a b : DeclaredType} (h : Holds g index a b) : b.height < a.height := by
  have hPositive : 0 < a.height := by
    cases h with
    | field hStruct hField hInlined => exact Nat.two_pos
    | member hStruct hOneof hMember hInlined => exact Nat.one_pos
  rcases holds_cases hEnums h with ⟨s, hEnum, rfl⟩ | ⟨file, i, oneof, rfl, rfl⟩
  · rwa [DeclaredType.height, if_neg (Bool.eq_false_iff.mp (isMessage_of_isEnum hEnum))]
  · exact Nat.one_lt_two

theorem height_of_chain {a b : DeclaredType} (h : Relation.TransGen (Holds g index) a b) : b.height < a.height := by
  induction h with
  | single h => exact height_of_holds hEnums h
  | tail _ h ih => exact Nat.lt_trans (height_of_holds hEnums h) ih

theorem indirect_of_stands (names : LocalNames) {file i : Nat} {s : Struct}
    (hStruct : StandsForMessage g index file i s) : Indirect names file i s where
  fieldsPrinted field _ := codeTexts_field names file i field
  membersPrinted _ _ member _ := codeTexts_member names member
  plainMentioned field _ := field.shape.mentioned_tree
  memberMentioned _ _ member _ := member.mentioned_tree
  fields _ hField _ hInlined := isMessage_of_holds hEnums (.field hStruct hField hInlined)
  members _ hOneof _ hMember _ hInlined := isMessage_of_holds hEnums (.member hStruct hOneof hMember hInlined)

end

/-- The structures of a model stand for messages of its schema file. -/
theorem stands_of_ofScope {g : Graph} {index : NameIndex} {file : Nat} {model : ModelFile}
    (h : ModelFile.ofScope ⟨g, index, file, .model⟩ = .ok model) :
    ∀ s ∈ model.structs, ∃ i, StandsForMessage g index file i s := by
  intro s hS
  obtain ⟨message, hMessage, hAssembles⟩ := exists_of_forall₂_right (assembles_of_ofScope h) s hS
  have hFile : message ∈ (Scope.file ⟨g, index, file, .model⟩).messages := List.mem_of_mem_filter hMessage
  cases hFound : g.file? file with
  | none =>
    rw [Scope.file, hFound] at hFile
    cases hFile
  | some node =>
    rw [Scope.file_of_file? hFound] at hFile
    obtain ⟨i, hI⟩ := List.mem_iff_getElem?.mp hFile
    exact ⟨i, message, Option.bind_eq_some_iff.mpr ⟨node, hFound, hI⟩, hAssembles⟩

/-- Where fields that name enums lead to enums, generated types are of finite size: messages occur in the types of
fields and variants inside of boxes, vectors and maps only, and no declared type is a part of itself. -/
theorem finite_sizes {g : Graph} {index : NameIndex} (names : LocalNames)
    (hEnums : ∀ f ∈ g.fields, f.type = .enum → index.leadsTo Symbol.isEnum f.typeName = true) :
    (∀ file i s, StandsForMessage g index file i s → Indirect names file i s) ∧
    (∀ file model, ModelFile.ofScope ⟨g, index, file, .model⟩ = .ok model →
      ∀ s ∈ model.structs, ∃ i, StandsForMessage g index file i s) ∧
    ∀ a, ¬ Relation.TransGen (Holds g index) a a :=
  ⟨fun _ _ _ hStruct => indirect_of_stands hEnums names hStruct, fun _ _ h => stands_of_ofScope h,
    fun _ hCycle => Nat.lt_irrefl _ (height_of_chain hEnums hCycle)⟩

/-- A file with messages that hold themselves and each other in every position, and an enum. -/
def tangledFile : FileDecl where
  name := "a.proto"
  messages := [
    .mk "A" [
        { name := "a", number := 1, type := .message, typeName := ".A" },
        { name := "b", number := 2, label := .repeated, type := .message, typeName := ".B" },
        { name := "c", number := 3, label := .repeated, type := .message, typeName := ".A.CEntry" },
        { name := "d", number := 4, type := .message, typeName := ".B", oneofIndex := some 0 },
        { name := "e", number := 5, type := .enum, typeName := ".E", oneofIndex := some 0 },
        { name := "f", number := 6, type := .enum, typeName := ".E" }]
      [.mk "CEntry" [{ name := "key", number := 1, type := .string },
          { name := "value", number := 2, type := .message, typeName := ".A" }]
        [] [] [] [] [] [] true false []]
      [] [{ name := "choice" }] [] [] [] false false [],
    .mk "B" [{ name := "a", number := 1, label := .required, type := .group, typeName := ".A" }]
      [] [] [] [] [] [] false false []]
  enums := [{ name := "E", values := [{ name := "ZERO" }] }]

theorem finite_sizes_tangledFile : ∃ index, NameIndex.build (singleFileScope tangledFile).graph = .ok index ∧
    (∃ model, ModelFile.ofScope ⟨(singleFileScope tangledFile).graph, index, 0, .model⟩ = .ok model ∧
      model.references.map (·.symbol) = [.message 0 0, .message 0 2, .message 0 0, .message 0 2, .enum 0 0, .enum 0 0,
        .message 0 0] ∧
      ∀ s ∈ model.structs, ∃ i, Indirect model.names 0 i s) ∧
    ∀ a, ¬ Relation.TransGen (Holds (singleFileScope tangledFile).graph index) a a := by
  obtain ⟨index, hIndex, model, hModel, hReferences, hEnums⟩ : ∃ index,
      NameIndex.build (singleFileScope tangledFile).graph = .ok index ∧
      ∃ model, ModelFile.ofScope ⟨(singleFileScope tangledFile).graph, index, 0, .model⟩ = .ok model ∧
        model.references.map (·.symbol) = [.message 0 0, .message 0 2, .message 0 0, .message 0 2, .enum 0 0, .enum 0 0,
          .message 0 0] ∧
        ∀ f ∈ (singleFileScope tangledFile).graph.fields, f.type = .enum →
          index.leadsTo Symbol.isEnum f.typeName = true := by
    exact ⟨_, rfl, _, rfl, by decide +kernel, by decide +kernel⟩
  obtain ⟨hIndirect, hStands, hCycles⟩ := finite_sizes model.names hEnums
  refine ⟨index, hIndex, ⟨model, hModel, hReferences, fun s hS => ?_⟩, hCycles⟩
  obtain ⟨i, hStruct⟩ := hStands 0 model hModel s hS
  exact ⟨i, hIndirect 0 i s hStruct⟩

end ProtoBind.Emit
