import ProtoBind.Proofs.NamesInTurn
import ProtoBind.Proofs.ReservedTypes

/-!
# Fresh enums

The enums of all oneofs of a file have names of their own, apart from each other and from the types of the file. Each
name is the least grown one that was free in its turn.
-/

set_option autoImplicit false

namespace ProtoBind.Emit

open Naming

/-- What the enum of a oneof has behind the name of its structure: the name of the oneof in the case of types, or
`Oneof` where the message does not declare it. -/
def oneofWord (message : MessageNode) (index : Int) : String :=
  match oneofDecl? message index with
  | some oneof => pascal oneof.name
  | none => "Oneof"

/-- What the oneofs of some structures ask for, by the messages that the structures stand for. -/
def enumRequests (messages : List MessageNode) (structs : List Struct) : List String :=
  (messages.zip structs).flatMap fun (message, s) => (oneofs s.fields).map fun o => s.name ++ oneofWord message o.index

theorem enumRequest_eq (message : MessageNode) (index : Int) :
    enumRequest message index = typePathName message.typeName ++ oneofWord message index := by
  rw [enumRequest, oneofName, oneofWord]
  cases oneofDecl? message index with
  | none => exact congrArg (typePathName message.typeName ++ ·) (by decide : pascal "oneof" = "Oneof")
  | some oneof => rfl

/-- What the oneofs of a structure ask for, and what their enums are called, where some names are busy before. -/
structure TitledInTurn (message : MessageNode) (used : List String) (state : Assembly) : Prop where
  titled : Titled message used state
  inTurn : InTurn "Oneof" used ((oneofs state.fields).map fun o => enumRequest message o.index)
    ((oneofs state.fields).map (·.enumName))

theorem titledInTurn_assemble (file : FileNode) (message : MessageNode) (used : List String)
    (typed : List TypedField) : TitledInTurn message used (assemble file message used typed) := by
  refine assemble_induction (P := fun _ state => TitledInTurn message used state) ?_ ?_ typed
  · exact ⟨titled_assemble file message used [], .nil⟩
  · rintro front field state next - ⟨hTitled, hInTurn⟩ hStep
    refine ⟨hTitled.step hStep, ?_⟩
    cases hStep with
    | alone hRole hName =>
      rw [oneofs_concat_plain]
      exact hInTurn
    | joins hRole hKnown hGetter =>
      simp only [oneofs_addMember, List.map_map, Function.comp_def, OneofField.enumName_withMember, index_withMember]
      exact hInTurn
    | @begins index element getter name enumName hRole hNew hGetter hName hEnum =>
      rw [oneofs_concat_oneof, List.map_append, List.map_append, List.map_singleton, List.map_singleton]
      refine hInTurn.concat ?_
      rw [hEnum]
      exact (leastFree_withSuffix (by decide) _ _).congr fun word => hTitled.names.mem_iff

/-- The names that are busy go through the structures of a file one by one. -/
theorem inTurn_structs (file : FileNode) (used : List String) (messages : List TypedMessage) :
    InTurn "Oneof" used (enumRequests (messages.map (·.node)) (Scope.structs file used messages))
      (enumNames (Scope.structs file used messages)) := by
  induction messages generalizing used with
  | nil => exact .nil
  | cons message rest ih =>
    obtain ⟨hTitled, hHead⟩ := titledInTurn_assemble file message.node used message.fields
    simp only [enumRequest_eq] at hHead
    exact hHead.append ((ih _).congr fun word => hTitled.names.mem_iff)

structure FreshEnums (scope : Scope) (model : ModelFile) : Prop where
  named : model.structs.map (·.name) = scope.declaredMessages.map fun message => typePathName message.typeName
  distinct : (enumNames model.structs).Nodup
  apart : ∀ name ∈ enumNames model.structs,
    (∀ message ∈ scope.file.messages, name ≠ typePathName message.typeName) ∧
      ∀ e ∈ scope.file.enums, name ≠ typePathName e.typeName
  least : InTurn "Oneof" scope.declaredNames (enumRequests scope.declaredMessages model.structs)
    (enumNames model.structs)
  ends : ∀ busy request, ∃ name, GrowsTo "Oneof" busy request name

theorem not_mem_declaredNames_iff {scope : Scope} {name : String} : name ∉ scope.declaredNames ↔
    (∀ message ∈ scope.file.messages, name ≠ typePathName message.typeName) ∧
      ∀ e ∈ scope.file.enums, name ≠ typePathName e.typeName := by
  rw [Scope.declaredNames, List.mem_append, not_or, List.mem_map, List.mem_map]
  simp only [not_exists, not_and, ne_comm]

/-- The enums of all oneofs of a file are apart from each other and from the types of the file, and each has the least
number of suffixes that makes it so in its turn. -/
theorem enumNames_fresh {scope : Scope} {model : ModelFile} (h : ModelFile.ofScope scope = .ok model) :
    FreshEnums scope model := by
  have hNamed : model.structs.map (·.name) = scope.declaredMessages.map fun message => typePathName message.typeName :=
    List.forall₂_eq_eq_eq ▸ List.forall₂_map_left_iff.mpr (List.forall₂_map_right_iff.mpr
      ((assembles_of_ofScope h).flip.imp fun _ _ hStruct => hStruct.1))
  have hLeast : InTurn "Oneof" scope.declaredNames (enumRequests scope.declaredMessages model.structs)
      (enumNames model.structs) := by
    unfold ModelFile.ofScope at h
    split at h
    · cases h
    · rename_i messages hMessages
      cases h
      rw [← Scope.map_node_typedMessages hMessages]
      exact inTurn_structs scope.file scope.declaredNames messages
  constructor
  · exact hNamed
  · exact hLeast.nodup
  · exact fun name hName => not_mem_declaredNames_iff.mp (hLeast.not_mem name hName)
  · exact hLeast
  · exact fun busy request => ⟨_, growsTo_withSuffix (by decide) busy request⟩

/-- A file with a oneof `bar` in a message `Foo`, and with messages that have the names for its enum. -/
def crowdedFile : FileDecl where
  name := "a.proto"
  messages := [.mk "Foo" [{ name := "a", number := 1, oneofIndex := some 0 },
        { name := "b", number := 2, oneofIndex := some 7 }] [] [] [{ name := "bar" }] [] [] [] false false [],
    .mk "FooBar" [{ name := "a", number := 1, oneofIndex := some (-1) }] [] [] [] [] [] [] false false [],
    bareMessage "FooBarOneof" []]

theorem enumNames_fresh_crowded : ∃ model, ModelFile.ofScope (singleFileScope crowdedFile) = .ok model ∧
    enumNames model.structs = ["FooBarOneofOneof", "FooOneof", "FooBarOneofOneofOneof"] ∧
    FreshEnums (singleFileScope crowdedFile) model := by
  obtain ⟨model, hModel, hNames⟩ : ∃ model, ModelFile.ofScope (singleFileScope crowdedFile) = .ok model ∧
      enumNames model.structs = ["FooBarOneofOneof", "FooOneof", "FooBarOneofOneofOneof"] :=
    ⟨_, rfl, by decide +kernel⟩
  exact ⟨model, hModel, hNames, enumNames_fresh hModel⟩

end ProtoBind.Emit
