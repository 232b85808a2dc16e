import ProtoBind.Proofs.FieldNames

/-!
# Members of oneofs

The variants of the enum of a oneof, and the methods that return their values. The methods of a structure
share one allocation with its fields, so they differ; the variants are spelled as they come.
-/

set_option autoImplicit false

namespace ProtoBind

open Naming Text

namespace Emit

/-! ### Spelled variants -/

theorem typeName_eq (name : String) : typeName name = typePathName [name] := by
  have hJoin : String.join [pascal name] = pascal name := by
    rw [← String.toList_inj, String.toList_join]
    simp
  rw [typePathName, List.map_singleton, hJoin]
  rfl

theorem typeName_inj {a b : String} : typeName a = typeName b ↔ spelling a = spelling b := by
  rw [typeName_eq, typeName_eq, typePathName_inj]
  simp [flatSpelling]

theorem isSchemaName_typeName {name : String} (h : isSchemaName name = true) : isSchemaName (typeName name) = true := by
  rw [typeName_eq]
  exact (Bool.and_eq_true_iff.mp (isCapital_typePathName (by simp) (by simpa using h))).1

/-! ### Printed members -/

def membersOf (message : MessageNode) (index : Int) : List FieldDecl :=
  message.decl.fields.filter fun field => field.home = some index

def enumHead : List Char := "pub enum ".toList

/-- What the lines of a member say: a method for the field that returns the value of its own variant. -/
structure MemberPrinted (names : LocalNames) (o : OneofField) (field : FieldDecl) (member : Member) : Prop where
  method : ∃ n, methodNames 0 (member.getterLines names o) = [repeatedly "_" ("get_" ++ snake field.name) n]
  arm : returningArms 0 (member.getterLines names o)
    = ["Some(" ++ o.enumName ++ "::" ++ typeName field.name ++ "(value)) => Some(value),"]

/-- What the lines of a oneof say about its members: an enum with one variant for each of them, spelled as the
member is, and one method. -/
structure OneofPrinted (names : LocalNames) (message : MessageNode) (o : OneofField) : Prop where
  declared : headedTexts 0 enumHead (o.enumLines names) = ["pub enum " ++ o.enumName ++ " \x7b"]
  variants : variantNames 0 (o.enumLines names)
    = (membersOf message o.index).map fun field => typeName field.name
  distinct : (variantNames 0 (o.enumLines names)).Nodup
    ↔ ((membersOf message o.index).map fun field => spelling field.name).Nodup
  members : List.Forall₂ (MemberPrinted names o) (membersOf message o.index) o.members

/-- What the lines of a structure say about the members of its oneofs. -/
structure MembersPrinted (names : LocalNames) (message : MessageNode) (s : Struct) : Prop where
  methods : (methodNames 1 (s.methods names)).Nodup
  covered : ∀ field ∈ message.decl.fields, ∀ index, field.home = some index → ∃ o ∈ oneofs s.fields, o.index = index
  oneofs : ∀ o ∈ oneofs s.fields, OneofPrinted names message o

section

variable (names : LocalNames) {o : OneofField}

theorem headedTexts_oneofEnum :
    headedTexts 0 enumHead (o.enumLines names) = ["pub enum " ++ o.enumName ++ " \x7b"] := by
  have hHead : enumHead <+: ("pub enum " ++ o.enumName ++ " \x7b").toList := by
    rw [String.toList_append, String.toList_append, List.append_assoc]
    exact List.prefix_append _ _
  rw [OneofField.enumLines, headedTexts_append, headedTexts_other (by decide), headedTexts_block_zero _ _ (by decide),
    headedTexts_code hHead]
  rfl

theorem methodNames_methods {s : Struct} (h : ∀ getter ∈ getters s.fields, isSchemaName getter = true) :
    methodNames 1 (s.methods names) = getters s.fields := by
  rw [methodNames, wordsBehind, headedTexts_methods, List.map_flatMap, getters]
  refine List.flatMap_congr fun o hO => ?_
  rw [← wordsBehind, Field.getterLines, wordsBehind_flatMap, List.map_eq_flatMap]
  refine List.flatMap_congr fun member hMember => methodNames_getterLines names ?_
  exact h _ (List.mem_flatMap.mpr ⟨o, hO, List.mem_map_of_mem hMember⟩)

end

def IsMemberOf (field : FieldDecl) (member : Member) : Prop :=
  member.variant = typeName field.name ∧ ∃ n, member.getter = repeatedly "_" ("get_" ++ snake field.name) n

theorem map_variant {fields : List FieldDecl} {members : List Member} (h : List.Forall₂ IsMemberOf fields members) :
    members.map (·.variant) = fields.map fun field => typeName field.name := by
  induction h with
  | nil => rfl
  | cons hHead _ ih => rw [List.map_cons, List.map_cons, ih, hHead.1]

section

variable {scope : Scope} {message : MessageNode} {typed : List TypedField}

theorem isMemberOf_of_gathered (hTyped : List.Forall₂ (IsTyped scope) message.decl.fields typed)
    {fields : List Field} (h : Gathered typed fields) {o : OneofField} (hO : o ∈ oneofs fields) :
    List.Forall₂ IsMemberOf (membersOf message o.index) o.members := by
  rw [membersOf, ← map_decl_ofHome hTyped (some o.index), List.forall₂_map_left_iff]
  refine (h.members o hO).imp ?_
  rintro field member ⟨element, -, n, rfl⟩
  exact ⟨rfl, n, rfl⟩

theorem nodup_variants_iff (fields : List FieldDecl) :
    (fields.map fun field => typeName field.name).Nodup ↔ (fields.map fun field => spelling field.name).Nodup := by
  rw [List.Nodup, List.pairwise_map, List.Nodup, List.pairwise_map]
  simp only [Ne, typeName_inj]

section

variable (names : LocalNames) (hNames : ∀ field ∈ message.decl.fields, isSchemaName field.name = true)
include hNames

theorem oneofPrinted {o : OneofField} (h : List.Forall₂ IsMemberOf (membersOf message o.index) o.members) :
    OneofPrinted names message o := by
  have hFields : ∀ field ∈ membersOf message o.index, isSchemaName field.name = true :=
    fun field hField => hNames field (List.mem_filter.mp hField).1
  have hSchema : ∀ member ∈ o.members, isSchemaName member.variant = true := by
    intro member hMember
    obtain ⟨field, hField, hVariant, -⟩ := exists_of_forall₂_right h member hMember
    rw [hVariant]
    exact isSchemaName_typeName (hFields field hField)
  have hVariants := (variantNames_enumLines names hSchema).trans (map_variant h)
  constructor
  case declared => exact headedTexts_oneofEnum names
  case variants => exact hVariants
  case distinct =>
    rw [hVariants]
    exact nodup_variants_iff _
  case members =>
    refine ((List.forall₂_and_left _ _).mpr ⟨hFields, h⟩).imp ?_
    rintro field member ⟨hField, hVariant, n, hGetter⟩
    have hMethod := isSchemaName_repeatedly (isSchemaName_getter hField) isNameChar_underscore n
    constructor
    · rw [← hGetter] at hMethod
      exact ⟨n, by rw [methodNames_getterLines names hMethod, hGetter]⟩
    · rw [returningArms_getterLines, hVariant]

theorem membersPrinted_of_assembles {s : Struct} (h : Assembles scope message s) : MembersPrinted names message s := by
  obtain ⟨-, typed, used, hTyped, hFields⟩ := h
  have hAllotted := allotted_assemble scope.file message used typed
  have hGathered := gathered_assemble scope.file message used typed
  rw [← hFields] at hGathered
  have hGetters : ∀ getter ∈ getters s.fields, isSchemaName getter = true := by
    intro getter hGetter
    obtain ⟨field, hField, n, rfl⟩ := exists_getterRequest hGathered getter hGetter
    exact isSchemaName_repeatedly (isSchemaName_getter (hNames _ (decl_mem hTyped field hField)))
      isNameChar_underscore n
  constructor
  case methods =>
    rw [methodNames_methods names hGetters, hFields]
    exact (List.nodup_append.mp hAllotted.nodup_names).1
  case covered =>
    intro field hField index hHome
    obtain ⟨t, hT, rfl, hRole⟩ := exists_of_forall₂_right hTyped.flip field hField
    rw [hFields]
    exact (assembled_assemble scope.file message used typed).covered t hT index ((Scope.home_of_role hRole).trans hHome)
  case oneofs =>
    intro o hO
    exact oneofPrinted names hNames (isMemberOf_of_gathered hTyped hGathered hO)

end

end

/-- The methods of a structure differ, and return the values of the variants of their own members; two variants
of one enum have the same name exactly if their members consist of the same capitalized words. -/
theorem members_printed {scope : Scope} {model : ModelFile} (hModel : ModelFile.ofScope scope = .ok model) :
    List.Forall₂ (fun message s => (∀ field ∈ message.decl.fields, isSchemaName field.name = true) →
      MembersPrinted model.names message s) scope.declaredMessages model.structs :=
  (assembles_of_ofScope hModel).imp fun _ _ h hNames => membersPrinted_of_assembles model.names hNames h

/-- A message with two members of one oneof that differ in case only. -/
def twinMembers : FileDecl where
  name := "a.proto"
  messages := [.mk "M" [{ name := "foo", number := 1, oneofIndex := some 0 },
    { name := "Foo", number := 2, oneofIndex := some 0 }] [] [] [{ name := "kind" }] [] [] [] false false []]

/-- Different members of one oneof whose variants have one name. -/
theorem members_printed_twinMembers :
    (∀ message ∈ (singleFileScope twinMembers).declaredMessages, (message.decl.fields.map (·.name)).Nodup) ∧
      ∃ model, ModelFile.ofScope (singleFileScope twinMembers) = .ok model ∧
        ∃ s ∈ model.structs, ∃ o ∈ oneofs s.fields, ¬ (variantNames 0 (o.enumLines model.names)).Nodup := by
  obtain ⟨model, hModel⟩ : ∃ model, ModelFile.ofScope (singleFileScope twinMembers) = .ok model := ⟨_, rfl⟩
  have hPrinted := members_printed hModel
  refine ⟨by decide, model, hModel, ?_⟩
  generalize model.structs = structs at hPrinted ⊢
  cases hPrinted with
  | @cons message s _ structs hFirst hRest =>
    have hMembers := hFirst (by decide)
    obtain ⟨o, hO, hIndex⟩ := hMembers.covered _ List.mem_cons_self 0 rfl
    refine ⟨s, List.mem_cons_self, o, hO, ?_⟩
    rw [(hMembers.oneofs o hO).distinct, hIndex]
    decide

end Emit

end ProtoBind
