import ProtoBind.Project
import ProtoBind.Proofs.OneofMembers
import ProtoBind.Proofs.TypePaths

/-!
# Types beside reserved names

Emitted models use some type names unqualified. The names of enums and messages are kept apart from these by an
underscore; the enum of a oneof is called by a message and a oneof together, and two pairs of names come to a
reserved one.
-/

set_option autoImplicit false

namespace ProtoBind

open Naming Text Emit

namespace Naming

/-- The halves of the reserved names that are made of two capitalized words. -/
def reservedHalves : List (String × String) := [("Hash", "Map"), ("Partial", "Eq")]

theorem escape_reserved : ∀ name ∈ reservedTypeNames, name ++ "_" ∉ reservedTypeNames := by decide

theorem escapeTypeName_not_reserved (name : String) : escapeTypeName name ∉ reservedTypeNames := by
  unfold escapeTypeName
  split
  · rename_i hReserved
    exact escape_reserved name hReserved
  · assumption

theorem typePathName_not_reserved (path : List String) : typePathName path ∉ reservedTypeNames :=
  escapeTypeName_not_reserved _

theorem suffix_not_reserved : ∀ name ∈ reservedTypeNames, ¬ "Oneof".toList <:+ name.toList := by decide

/-- A reserved name is not one that has grown. -/
theorem request_of_reserved {request : String} {n : Nat} (h : repeatedly "Oneof" request n ∈ reservedTypeNames) :
    request ∈ reservedTypeNames := by
  cases n with
  | zero => exact h
  | succ n =>
    refine absurd ?_ (suffix_not_reserved _ h)
    rw [repeatedly, String.toList_append]
    exact List.suffix_append _ _

theorem reservedHalves_of_split : ∀ name ∈ reservedTypeNames, ∀ k ∈ List.range (name.toList.length + 1),
    (name.toList.take k).head?.any Char.isUpper = true → (name.toList.drop k).head?.any Char.isUpper = true →
      (String.ofList (name.toList.take k), String.ofList (name.toList.drop k)) ∈ reservedHalves := by
  decide

theorem reserved_append_iff {front back : String} (hFront : isCapital front = true) (hBack : isCapital back = true) :
    front ++ back ∈ reservedTypeNames ↔ (front, back) ∈ reservedHalves := by
  constructor
  · intro h
    have hBound : front.toList.length ∈ List.range ((front ++ back).toList.length + 1) := by
      rw [List.mem_range, String.toList_append, List.length_append]
      omega
    have hHalves := reservedHalves_of_split _ h front.toList.length hBound
    rw [String.toList_append, List.take_left, List.drop_left, String.ofList_toList, String.ofList_toList] at hHalves
    exact hHalves (Bool.and_eq_true_iff.mp hFront).2 (Bool.and_eq_true_iff.mp hBack).2
  · have hAll : ∀ halves ∈ reservedHalves, halves.1 ++ halves.2 ∈ reservedTypeNames := by decide
    exact hAll (front, back)

end Naming

namespace Emit

/-! ### Names of enums -/

/-- The names of the enums of the oneofs, given out after those that are used up before. -/
structure Titled (message : MessageNode) (used : List String) (state : Assembly) : Prop where
  names : state.typeNames.Perm ((oneofs state.fields).map (·.enumName) ++ used)
  forms : ∀ o ∈ oneofs state.fields, ∃ n, o.enumName = repeatedly "Oneof" (enumRequest message o.index) n
  requested : ∀ o ∈ oneofs state.fields, enumRequest message o.index ∈ state.typeNames

section

variable {message : MessageNode} {used : List String}

theorem Titled.step {file : FileNode} {state next : Assembly} {field : TypedField} (h : Titled message used state)
    (hStep : Step file message state field next) : Titled message used next := by
  cases hStep with
  | alone hRole hName =>
    constructor
    case names =>
      rw [oneofs_concat_plain]
      exact h.names
    case forms =>
      rw [oneofs_concat_plain]
      exact h.forms
    case requested =>
      rw [oneofs_concat_plain]
      exact h.requested
  | joins hRole hKnown hGetter =>
    constructor
    case names =>
      simp only [oneofs_addMember, List.map_map, Function.comp_def, OneofField.enumName_withMember]
      exact h.names
    case forms =>
      rw [oneofs_addMember, List.forall_mem_map]
      intro o hO
      rw [OneofField.enumName_withMember, index_withMember]
      exact h.forms o hO
    case requested =>
      rw [oneofs_addMember, List.forall_mem_map]
      intro o hO
      rw [index_withMember]
      exact h.requested o hO
  | @begins index element getter name enumName hRole hNew hGetter hName hEnum =>
    -- A name for the enum is asked for with the first field of a oneof and never again.
    obtain ⟨n, hSuffixes⟩ := withSuffix_eq "Oneof" state.typeNames (enumRequest message index)
    constructor
    case names =>
      rw [oneofs_concat_oneof, List.map_append, List.append_assoc]
      exact (h.names.cons enumName).trans List.perm_middle.symm
    case forms =>
      rw [oneofs_concat_oneof]
      intro o hO
      rcases List.mem_append.mp hO with hOld | hLast
      · exact h.forms o hOld
      · rw [List.mem_singleton.mp hLast]
        exact ⟨n, hEnum.trans hSuffixes⟩
    case requested =>
      rw [oneofs_concat_oneof]
      intro o hO
      rcases List.mem_append.mp hO with hOld | hLast
      · exact List.mem_cons_of_mem _ (h.requested o hOld)
      · rw [List.mem_singleton.mp hLast, hEnum]
        exact mem_cons_withSuffix (by decide)

theorem titled_assemble (file : FileNode) (message : MessageNode) (used : List String) (typed : List TypedField) :
    Titled message used (assemble file message used typed) := by
  refine assemble_induction (P := fun _ state => Titled message used state) ?_ ?_ typed
  · exact ⟨.refl _, fun o hO => absurd hO List.not_mem_nil, fun o hO => absurd hO List.not_mem_nil⟩
  · intro front field state next _ h hStep
    exact h.step hStep

end

/-! ### Characters of names -/

theorem isNameChar_repeatedly {suffix name : String} (hSuffix : ∀ c ∈ suffix.toList, isNameChar c = true)
    (hName : ∀ c ∈ name.toList, isNameChar c = true) (n : Nat) :
    ∀ c ∈ (repeatedly suffix name n).toList, isNameChar c = true := by
  induction n with
  | zero => exact hName
  | succ n ih =>
    rw [repeatedly, String.toList_append]
    exact List.forall_mem_append.mpr ⟨ih, hSuffix⟩

theorem isNameChar_oneofSuffix : ∀ c ∈ "Oneof".toList, isNameChar c = true := Source.forall_mem_of_all (by decide)

theorem isNameChar_enumRequest {message : MessageNode} (hPath : ∀ name ∈ message.typeName, isSchemaName name = true)
    {index : Int} (hOneof : isSchemaName (oneofName message index) = true) :
    ∀ c ∈ (enumRequest message index).toList, isNameChar c = true := by
  rw [enumRequest, String.toList_append]
  refine List.forall_mem_append.mpr ⟨fun c => isNameChar_of_mem_typePathName hPath, ?_⟩
  intro c hC
  rw [pascal_toList] at hC
  exact isNameChar_of_isAlphanum (isAlphanum_of_mem_spelling hOneof hC)

/-! ### Enums of oneofs -/

def enumNames (structs : List Struct) : List String := structs.flatMap fun s => (oneofs s.fields).map (·.enumName)

section

variable {file : FileNode} {used : List String} {messages : List TypedMessage}

theorem enumNames_structs_cons (message : TypedMessage) :
    (enumNames (Scope.structs file used (message :: messages)) ++ used).Perm
      (enumNames (Scope.structs file (assemble file message.node used message.fields).typeNames messages)
        ++ (assemble file message.node used message.fields).typeNames) := by
  have hTitled := titled_assemble file message.node used message.fields
  rw [Scope.structs, enumNames, List.flatMap_cons]
  refine .trans ?_ (hTitled.names.symm.append_left _)
  rw [List.append_assoc]
  exact List.perm_append_comm_assoc _ _ _

/-- What is asked for is given to an enum, or was used up before. -/
theorem mem_enumNames_of_request : ∀ message ∈ messages, ∀ field ∈ message.fields, ∀ index,
    field.role.home = some index →
      enumRequest message.node index ∈ enumNames (Scope.structs file used messages) ++ used := by
  induction messages generalizing used with
  | nil => exact fun message hMessage => absurd hMessage List.not_mem_nil
  | cons first rest ih =>
    intro message hMessage field hField index hHome
    rw [(enumNames_structs_cons first).mem_iff]
    rcases List.mem_cons.mp hMessage with rfl | hRest
    · obtain ⟨o, hO, rfl⟩ := (assembled_assemble file message.node used message.fields).covered field hField index hHome
      exact List.mem_append_right _ ((titled_assemble file message.node used message.fields).requested o hO)
    · exact ih message hRest field hField index hHome

/-- Each enum has the name that its oneof asks for, perhaps grown by some suffixes. -/
theorem exists_request_of_enumName : ∀ name ∈ enumNames (Scope.structs file used messages),
    ∃ message ∈ messages, ∃ field ∈ message.fields, ∃ index n, field.role.home = some index ∧
      name = repeatedly "Oneof" (enumRequest message.node index) n := by
  induction messages generalizing used with
  | nil => exact fun name hName => absurd hName List.not_mem_nil
  | cons message rest ih =>
    intro name hName
    rw [Scope.structs, enumNames, List.flatMap_cons, List.mem_append] at hName
    rcases hName with hHead | hRest
    · obtain ⟨o, hO, rfl⟩ := List.mem_map.mp hHead
      obtain ⟨field, hField, hHome⟩ :=
        List.mem_map.mp ((gathered_assemble file message.node used message.fields).homes o hO)
      obtain ⟨n, hForm⟩ := (titled_assemble file message.node used message.fields).forms o hO
      exact ⟨message, List.mem_cons_self, field, hField, o.index, n, hHome, hForm⟩
    · obtain ⟨other, hOther, hFound⟩ := ih name hRest
      exact ⟨other, List.mem_cons_of_mem _ hOther, hFound⟩

end

/-! ### Declared types -/

theorem headsTypes_enum : HeadsTypes enumHead := by
  constructor
  all_goals decide

theorem enumNames_declaration (names : LocalNames) (s : Struct) :
    declaredNames enumHead (s.declaration names) = [] := by
  have hStruct : Differs enumHead "pub struct " := by decide
  unfold Struct.declaration
  split
  · exact declaredNames_cons_of_none (declaredName?_of_differs ((hStruct.append _).append _)) []
  · exact declaredNames_block_of_differs ((hStruct.append _).append _) (by decide) _

theorem enumNames_oneof (names : LocalNames) {o : OneofField} (h : ∀ c ∈ o.enumName.toList, isNameChar c = true) :
    declaredNames enumHead (o.enumLines names) = [o.enumName] := by
  have hEnum : declaredName? enumHead (code ("pub enum " ++ o.enumName ++ " \x7b")) = some o.enumName :=
    declaredName?_code (fun c hC => isIdentifierRest_of_isNameChar (h c hC)) (by simp; decide)
  rw [OneofField.enumLines, declaredNames_append, declaredNames_cons_of_none (declaredName?_of_differs (by decide)),
    declaredNames_block, declaredNames_cons_of_some hEnum, declaredNames_cons_of_none
      (declaredName?_of_differs (by decide))]
  rfl

theorem enumNames_structLines (names : LocalNames) {s : Struct}
    (h : ∀ o ∈ oneofs s.fields, ∀ c ∈ o.enumName.toList, isNameChar c = true) :
    declaredNames enumHead (s.lines names) = (oneofs s.fields).map (·.enumName) := by
  rw [declaredNames_structLines headsTypes_enum, enumNames_declaration, List.nil_append]
  generalize s.fields = fields at h ⊢
  induction fields with
  | nil => rfl
  | cons field rest ih =>
    rw [List.flatMap_cons]
    cases field with
    | plain field => exact ih h
    | oneof o =>
      have hHead : declaredNames enumHead (Field.enumLines names (.oneof o)) = [o.enumName] :=
        enumNames_oneof names (h o List.mem_cons_self)
      rw [hHead, ih fun other hOther => h other (List.mem_cons_of_mem _ hOther)]
      rfl

/-- The enums that the lines of a model declare are those of its oneofs. -/
theorem enumNames_lines (params : Parameters) {model : ModelFile}
    (h : ∀ s ∈ model.structs, ∀ o ∈ oneofs s.fields, ∀ c ∈ o.enumName.toList, isNameChar c = true) :
    declaredNames enumHead (model.lines params) = enumNames model.structs := by
  have hEnums : ∀ e ∈ model.enums, declaredNames enumHead (enumLines model.file e) = [] := by
    intro e _
    have hStruct : Differs enumHead "pub struct " := by decide
    rw [declaredNames_enumLines headsTypes_enum]
    exact declaredNames_cons_of_none (declaredName?_of_differs ((hStruct.append _).append _)) []
  rw [declaredNames_modelLines headsTypes_enum, List.flatMap_eq_nil_iff.mpr hEnums, List.nil_append, enumNames]
  exact List.flatMap_congr fun s hS => enumNames_structLines model.names (h s hS)

namespace Scope

variable {scope : Scope}

theorem declaredNames_not_reserved : ∀ name ∈ scope.declaredNames, name ∉ reservedTypeNames := by
  intro name hName
  rcases List.mem_append.mp hName with hMessage | hEnum
  · obtain ⟨message, -, rfl⟩ := List.mem_map.mp hMessage
    exact typePathName_not_reserved _
  · obtain ⟨e, -, rfl⟩ := List.mem_map.mp hEnum
    exact typePathName_not_reserved _

section

variable {files : List FileDecl} {names : List String} {params : Parameters}
  (hPrepare : Graph.prepare files names params = .ok (scope.graph, scope.index)) (h : scope.file.decl.TypesNamed)
include hPrepare h

theorem messagePaths_named : ∀ message ∈ scope.declaredMessages,
    message.typeName ≠ [] ∧ ∀ name ∈ message.typeName, isSchemaName name = true := by
  intro message hMessage
  have hMem := (List.mem_filter.mp hMessage).1
  rw [(file_of_prepare hPrepare).1] at hMem
  exact h.messagePath hMem

theorem declaredTypes_named : ∀ path ∈ scope.declaredTypes, ∀ name ∈ path, isSchemaName name = true := by
  intro path hPath
  rcases List.mem_append.mp hPath with hEnum | hMessage
  · rw [(file_of_prepare hPrepare).2, typeNames_of_nameEnums] at hEnum
    obtain ⟨e, hE, rfl⟩ := List.mem_map.mp hEnum
    exact (h.enumPath hE).2
  · obtain ⟨message, hMem, rfl⟩ := List.mem_map.mp hMessage
    exact (messagePaths_named hPrepare h message hMem).2

end

section

variable {model : ModelFile} (h : ModelFile.ofScope scope = .ok model)
include h

theorem mem_enumNames_of_home : ∀ message ∈ scope.declaredMessages, ∀ field ∈ message.decl.fields, ∀ index,
    field.home = some index → enumRequest message index ∈ enumNames model.structs ++ scope.declaredNames := by
  unfold ModelFile.ofScope at h
  split at h
  · cases h
  · rename_i messages hMessages
    cases h
    intro message hMessage field hField index hHome
    obtain ⟨typed, hMem, hTyped⟩ := exists_of_forall₂_right (forall₂_of_mapM hMessages).flip message hMessage
    obtain ⟨rfl, hFields⟩ := typed_of_typedMessage hTyped
    obtain ⟨t, hT, rfl, hRole⟩ := exists_of_forall₂_right hFields.flip field hField
    exact mem_enumNames_of_request typed hMem t hT index ((home_of_role hRole).trans hHome)

theorem exists_home_of_enumName : ∀ name ∈ enumNames model.structs, ∃ message ∈ scope.declaredMessages,
    ∃ field ∈ message.decl.fields, ∃ index n, field.home = some index ∧
      name = repeatedly "Oneof" (enumRequest message index) n := by
  unfold ModelFile.ofScope at h
  split at h
  · cases h
  · rename_i messages hMessages
    cases h
    intro name hName
    obtain ⟨typed, hMem, t, hT, index, n, hHome, hForm⟩ := exists_request_of_enumName name hName
    obtain ⟨message, hMessage, hTyped⟩ := exists_of_forall₂_right (forall₂_of_mapM hMessages) typed hMem
    obtain ⟨rfl, hFields⟩ := typed_of_typedMessage hTyped
    obtain ⟨field, hField, rfl, hRole⟩ := exists_of_forall₂_right hFields t hT
    exact ⟨typed.node, hMessage, t.decl, hField, index, n, (home_of_role hRole).symm.trans hHome, hForm⟩

end

/-- The enum of a oneof has a reserved name exactly if its message and the oneof have the halves of one. -/
theorem enumNames_reserved_iff {model : ModelFile} (h : ModelFile.ofScope scope = .ok model)
    (hPaths : ∀ message ∈ scope.declaredMessages,
      message.typeName ≠ [] ∧ ∀ name ∈ message.typeName, isSchemaName name = true)
    (hNames : ∀ message ∈ scope.declaredMessages, HasSchemaNames message) :
    (∀ name ∈ enumNames model.structs, name ∉ reservedTypeNames) ↔
      ∀ message ∈ scope.declaredMessages, ∀ field ∈ message.decl.fields, ∀ index, field.home = some index →
        (typePathName message.typeName, pascal (oneofName message index)) ∉ reservedHalves := by
  have hRequest : ∀ message ∈ scope.declaredMessages, ∀ index, enumRequest message index ∈ reservedTypeNames ↔
      (typePathName message.typeName, pascal (oneofName message index)) ∈ reservedHalves := by
    intro message hMessage index
    exact reserved_append_iff (isCapital_typePathName (hPaths message hMessage).1 (hPaths message hMessage).2)
      (isCapital_pascal ((hNames message hMessage).oneofName index))
  constructor
  · intro hFree message hMessage field hField index hHome hHalves
    have hReserved := (hRequest message hMessage index).mpr hHalves
    rcases List.mem_append.mp (mem_enumNames_of_home h message hMessage field hField index hHome) with hEnum | hUsed
    · exact hFree _ hEnum hReserved
    · exact declaredNames_not_reserved _ hUsed hReserved
  · intro hApart name hName hReserved
    obtain ⟨message, hMessage, field, hField, index, n, hHome, rfl⟩ := exists_home_of_enumName h name hName
    exact hApart message hMessage field hField index hHome
      ((hRequest message hMessage index).mp (request_of_reserved hReserved))

end Scope

end Emit

namespace Project

/-- No structure of a model has a reserved name. An enum has one exactly if it belongs to a oneof `map` of a message
`Hash`, or to a oneof `eq` of a message `Partial`, in whatever case. -/
theorem reserved_not_declared_iff {project : Project} {files : List FileDecl} {names : List String}
    (hPrepare : Graph.prepare files names project.config.params = .ok (project.graph, project.index)) {place : Nat}
    {model : ModelFile} (hModel : project.model place = .ok model)
    (hTypes : (project.scope place .model).file.decl.TypesNamed)
    (hNames : ∀ message ∈ (project.scope place .model).declaredMessages, HasSchemaNames message) :
    (∀ name ∈ declaredNames structHead (model.lines project.config.params), name ∉
        ["Self", "Option", "Some", "None", "Result", "Ok", "Err", "Box", "Vec", "String", "HashMap",
          "Default", "PartialEq", "Serialize", "Deserialize"]) ∧
      ((∀ name ∈ declaredNames enumHead (model.lines project.config.params), name ∉
          ["Self", "Option", "Some", "None", "Result", "Ok", "Err", "Box", "Vec", "String", "HashMap",
            "Default", "PartialEq", "Serialize", "Deserialize"]) ↔
        ∀ message ∈ (project.scope place .model).declaredMessages, ∀ field ∈ message.decl.fields, ∀ index,
          field.home = some index →
            (typePathName message.typeName, pascal (oneofName message index)) ∉ reservedHalves) := by
  have hPaths := @Scope.messagePaths_named (project.scope place .model) _ _ _ hPrepare hTypes
  constructor
  · rw [structNames_types project.config.params hModel (Scope.declaredTypes_named hPrepare hTypes)]
    intro name hName
    obtain ⟨path, -, rfl⟩ := List.mem_map.mp hName
    exact typePathName_not_reserved path
  · rw [enumNames_lines project.config.params]
    · exact Scope.enumNames_reserved_iff hModel hPaths hNames
    · intro s hS o hO
      have hName : o.enumName ∈ enumNames model.structs :=
        List.mem_flatMap.mpr ⟨s, hS, List.mem_map_of_mem hO⟩
      obtain ⟨message, hMessage, field, hField, index, n, -, hForm⟩ :=
        Scope.exists_home_of_enumName hModel _ hName
      rw [hForm]
      exact isNameChar_repeatedly isNameChar_oneofSuffix
        (isNameChar_enumRequest (hPaths message hMessage).2 ((hNames message hMessage).oneofName index)) n

/-- A message and a oneof in it that share the words of a reserved name. -/
def hashFile : FileDecl where
  name := "a.proto"
  messages := [.mk "Hash" [{ name := "a", number := 1, oneofIndex := some 0 }] [] [] [{ name := "map" }] [] [] []
    false false []]

/-- An enum with a name that models use unqualified. -/
theorem reserved_not_declared_hashFile : ∃ (g : Graph) (index : NameIndex) (model : ModelFile),
    Graph.prepare [hashFile] ["a.proto"] {} = .ok (g, index) ∧ Project.model ⟨g, index, {}, {}⟩ 0 = .ok model ∧
      ∃ name ∈ declaredNames enumHead (model.lines {}), name ∈ reservedTypeNames := by
  obtain ⟨g, index, hPrepare, hTypes, hNames, hClash, model, hModel⟩ : ∃ (g : Graph) (index : NameIndex),
      Graph.prepare [hashFile] ["a.proto"] {} = .ok (g, index) ∧
        (Project.scope ⟨g, index, {}, {}⟩ 0 .model).file.decl.TypesNamed ∧
        (∀ message ∈ (Project.scope ⟨g, index, {}, {}⟩ 0 .model).declaredMessages, HasSchemaNames message) ∧
        (∃ message ∈ (Project.scope ⟨g, index, {}, {}⟩ 0 .model).declaredMessages, ∃ field ∈ message.decl.fields,
          field.home = some 0 ∧ (typePathName message.typeName, pascal (oneofName message 0)) ∈ reservedHalves) ∧
        ∃ model, Project.model ⟨g, index, {}, {}⟩ 0 = .ok model :=
    ⟨_, _, rfl, ⟨by decide +kernel, by decide +kernel⟩, by decide +kernel, by decide +kernel, _, rfl⟩
  obtain ⟨message, hMessage, field, hField, hHome, hHalves⟩ := hClash
  refine ⟨g, index, model, hPrepare, hModel, ?_⟩
  have hIff := (@reserved_not_declared_iff ⟨g, index, {}, {}⟩ _ _ hPrepare 0 model hModel hTypes hNames).2
  by_contra hNone
  refine hIff.mp ?_ message hMessage field hField 0 hHome hHalves
  intro name hName hReserved
  exact hNone ⟨name, hName, hReserved⟩

end Project

end ProtoBind
