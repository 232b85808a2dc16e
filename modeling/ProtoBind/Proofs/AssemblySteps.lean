import Mathlib.Data.List.Induction
import ProtoBind.Proofs.FieldComments
import ProtoBind.Proofs.NameForms
import ProtoBind.Proofs.Stages

/-!
# Steps of an assembly

What putting one more field to a structure does, as a relation, and the induction along it. The fields and
the members that come of it are those of the message, in order, under names that were free.
-/

set_option autoImplicit false

namespace ProtoBind.Emit

open Naming

/-! ### Steps -/

def oneofName (message : MessageNode) (index : Int) : String :=
  ((oneofDecl? message index).map OneofDecl.name).getD "oneof"

def getterRequest (field : TypedField) : String := "get_" ++ snake field.decl.name

def enumRequest (message : MessageNode) (index : Int) : String :=
  typePathName message.typeName ++ pascal (oneofName message index)

namespace TypedField

def alone (field : TypedField) (shape : Shape) (name : String) : PlainField :=
  { name, shape, wireName := field.wireName, omitEmpty := (Directives.ofComment? field.comment).omitempty,
    comment := field.comment, deprecated := field.decl.deprecated }

def asMember (field : TypedField) (element : Element) (getter : String) : Member :=
  { variant := typeName field.decl.name, getter, element, wireName := field.wireName,
    comment := field.comment, deprecated := field.decl.deprecated }

end TypedField

/-- One more field stands alone, joins the members of a oneof that is there, or begins a new one. -/
inductive Step (file : FileNode) (message : MessageNode) (state : Assembly) (field : TypedField) :
    Assembly → Prop where
  | alone {shape : Shape} {name : String} (hRole : field.role = .plain shape)
      (hName : name = withSuffix "_" state.fieldNames (snake field.decl.name)) :
      Step file message state field
        { state with
          fieldNames := name :: state.fieldNames,
          fields := state.fields ++ [.plain (field.alone shape name)] }
  | joins {index : Int} {element : Element} {getter : String} (hRole : field.role = .member index element)
      (hKnown : ∃ o ∈ oneofs state.fields, o.index = index)
      (hGetter : getter = withSuffix "_" state.fieldNames (getterRequest field)) :
      Step file message state field
        { state with
          fieldNames := getter :: state.fieldNames,
          fields := state.fields.map (Field.addMember index (field.asMember element getter)) }
  | begins {index : Int} {element : Element} {getter name enumName : String}
      (hRole : field.role = .member index element) (hNew : ∀ o ∈ oneofs state.fields, o.index ≠ index)
      (hGetter : getter = withSuffix "_" state.fieldNames (getterRequest field))
      (hName : name = withSuffix "_" (getter :: state.fieldNames) (snake (oneofName message index)))
      (hEnum : enumName = withSuffix "Oneof" state.typeNames (enumRequest message index)) :
      Step file message state field
        { typeNames := enumName :: state.typeNames,
          fieldNames := name :: getter :: state.fieldNames,
          fields := state.fields ++ [.oneof
            { index, name, enumName, comment := oneofComment? file message index,
              members := [field.asMember element getter] }] }

section

variable {file : FileNode} {message : MessageNode} {typeNames : List String}

theorem step_add (state : Assembly) (field : TypedField) :
    Step file message state field (state.add file message field) := by
  unfold Assembly.add
  cases hRole : field.role with
  | plain shape => exact .alone hRole rfl
  | member index element =>
    dsimp only
    split
    · rename_i hKnown
      exact .joins hRole ((any_isOneof index state.fields).mp hKnown) rfl
    · rename_i hNew
      refine .begins hRole ?_ rfl rfl rfl
      intro o hO hIndex
      exact hNew ((any_isOneof index state.fields).mpr ⟨o, hO, hIndex⟩)

/-- What holds of nothing, and is kept by each step, holds of the fields put together. -/
theorem assemble_induction {P : List TypedField → Assembly → Prop} (hStart : P [] { typeNames })
    (hStep : ∀ front field state next, Assembled file message front state.fields → P front state →
      Step file message state field next → P (front ++ [field]) next) (typed : List TypedField) :
    P typed (assemble file message typeNames typed) := by
  induction typed using List.reverseRecOn with
  | nil => exact hStart
  | append_singleton front field ih =>
    have hAdd : assemble file message typeNames (front ++ [field])
        = (assemble file message typeNames front).add file message field := by
      rw [assemble, List.foldl_append]
      rfl
    rw [hAdd]
    exact hStep front field _ _ (assembled_assemble file message typeNames front) ih (step_add _ _)

end

/-! ### Fields and members -/

section

variable (fields : List Field)

@[simp] theorem plains_concat_plain (plain : PlainField) :
    plains (fields ++ [.plain plain]) = plains fields ++ [plain] := List.filterMap_append

@[simp] theorem plains_concat_oneof (o : OneofField) : plains (fields ++ [.oneof o]) = plains fields :=
  List.filterMap_append.trans (List.append_nil _)

@[simp] theorem oneofs_concat_plain (plain : PlainField) : oneofs (fields ++ [.plain plain]) = oneofs fields :=
  List.filterMap_append.trans (List.append_nil _)

@[simp] theorem oneofs_concat_oneof (o : OneofField) :
    oneofs (fields ++ [.oneof o]) = oneofs fields ++ [o] := List.filterMap_append

end

namespace OneofField

variable (index : Int) (member : Member) (oneof : OneofField)

@[simp] theorem enumName_withMember : (oneof.withMember index member).enumName = oneof.enumName := by
  unfold withMember
  split <;> rfl

end OneofField

def ofHome (home : Option Int) (typed : List TypedField) : List TypedField :=
  typed.filter fun field => field.role.home = home

theorem ofHome_concat_of_eq {home : Option Int} {field : TypedField} (h : field.role.home = home)
    (typed : List TypedField) : ofHome home (typed ++ [field]) = ofHome home typed ++ [field] := by
  simp [ofHome, h]

theorem ofHome_concat_of_ne {home : Option Int} {field : TypedField} (h : field.role.home ≠ home)
    (typed : List TypedField) : ofHome home (typed ++ [field]) = ofHome home typed := by
  simp [ofHome, h]

def StandsFor (field : TypedField) (plain : PlainField) : Prop :=
  ∃ shape, field.role = .plain shape ∧ ∃ name, plain = field.alone shape name

/-- A member of a oneof that stands for a field of the message, in the oneof with an index. -/
def IsMember (index : Int) (field : TypedField) (member : Member) : Prop :=
  ∃ element, field.role = .member index element ∧
    ∃ n, member = field.asMember element (repeatedly "_" (getterRequest field) n)

theorem ofHome_eq_nil {file : FileNode} {message : MessageNode} {typed : List TypedField} {fields : List Field}
    (h : Assembled file message typed fields) {index : Int} (hNew : ∀ o ∈ oneofs fields, o.index ≠ index) :
    ofHome (some index) typed = [] := by
  rw [ofHome, List.filter_eq_nil_iff]
  intro field hField hHome
  obtain ⟨o, hO, hIndex⟩ := h.covered field hField index (by simpa using hHome)
  exact hNew o hO hIndex

/-- The fields and the members of a structure stand for those of the message, in order. -/
structure Gathered (typed : List TypedField) (fields : List Field) : Prop where
  plain : List.Forall₂ StandsFor (ofHome none typed) (plains fields)
  members : ∀ o ∈ oneofs fields, List.Forall₂ (IsMember o.index) (ofHome (some o.index) typed) o.members
  homes : ∀ o ∈ oneofs fields, some o.index ∈ typed.map (·.role.home)

section

variable {file : FileNode} {message : MessageNode} {typeNames : List String}

theorem Gathered.step {front : List TypedField} {field : TypedField} {state next : Assembly}
    (hFront : Assembled file message front state.fields) (h : Gathered front state.fields)
    (hStep : Step file message state field next) : Gathered (front ++ [field]) next.fields := by
  cases hStep with
  | @alone shape name hRole hName =>
    have hHome : field.role.home = none := congrArg Role.home hRole
    constructor
    case plain =>
      rw [plains_concat_plain, ofHome_concat_of_eq hHome]
      exact List.rel_append h.plain (.cons ⟨shape, hRole, name, rfl⟩ .nil)
    case members =>
      intro o hO
      rw [oneofs_concat_plain] at hO
      rw [ofHome_concat_of_ne (by simp [hHome])]
      exact h.members o hO
    case homes =>
      intro o hO
      rw [oneofs_concat_plain] at hO
      rw [List.map_append]
      exact List.mem_append_left _ (h.homes o hO)
  | @joins index element getter hRole hKnown hGetter =>
    have hHome : field.role.home = some index := congrArg Role.home hRole
    obtain ⟨n, hSuffixes⟩ := withSuffix_eq "_" state.fieldNames (getterRequest field)
    constructor
    case plain =>
      rw [plains_addMember, ofHome_concat_of_ne (by simp [hHome])]
      exact h.plain
    case members =>
      rw [oneofs_addMember]
      intro o hO
      obtain ⟨first, hFirst, rfl⟩ := List.mem_map.mp hO
      rw [index_withMember]
      -- Of the oneofs, only the one with the index of the field gets a member.
      by_cases hIndex : first.index = index
      · rw [hIndex, ofHome_concat_of_eq hHome, OneofField.withMember, if_pos hIndex]
        refine List.rel_append (hIndex ▸ h.members first hFirst) (.cons ?_ .nil)
        exact ⟨element, hRole, n, by rw [hGetter, hSuffixes]⟩
      · rw [ofHome_concat_of_ne (by simpa [hHome] using Ne.symm hIndex), OneofField.withMember, if_neg hIndex]
        exact h.members first hFirst
    case homes =>
      rw [oneofs_addMember]
      intro o hO
      obtain ⟨first, hFirst, rfl⟩ := List.mem_map.mp hO
      rw [index_withMember, List.map_append]
      exact List.mem_append_left _ (h.homes first hFirst)
  | @begins index element getter name enumName hRole hNew hGetter hName hEnum =>
    have hHome : field.role.home = some index := congrArg Role.home hRole
    obtain ⟨n, hSuffixes⟩ := withSuffix_eq "_" state.fieldNames (getterRequest field)
    constructor
    case plain =>
      rw [plains_concat_oneof, ofHome_concat_of_ne (by simp [hHome])]
      exact h.plain
    case members =>
      intro o hO
      rw [oneofs_concat_oneof, List.mem_append, List.mem_singleton] at hO
      rcases hO with hOld | rfl
      · rw [ofHome_concat_of_ne (by simpa [hHome] using (hNew o hOld).symm)]
        exact h.members o hOld
      -- No field of a oneof that is not known stands before this one.
      · rw [ofHome_concat_of_eq hHome, ofHome_eq_nil hFront hNew]
        exact .cons ⟨element, hRole, n, by rw [hGetter, hSuffixes]⟩ .nil
    case homes =>
      intro o hO
      rw [oneofs_concat_oneof, List.mem_append, List.mem_singleton] at hO
      rw [List.map_append]
      rcases hO with hOld | rfl
      · exact List.mem_append_left _ (h.homes o hOld)
      · exact List.mem_append_right _ (List.mem_singleton.mpr hHome.symm)

theorem gathered_assemble (file : FileNode) (message : MessageNode) (typeNames : List String)
    (typed : List TypedField) : Gathered typed (assemble file message typeNames typed).fields := by
  refine assemble_induction (P := fun front state => Gathered front state.fields) ?_ ?_ typed
  · exact ⟨.nil, fun o hO => absurd hO List.not_mem_nil, fun o hO => absurd hO List.not_mem_nil⟩
  · intro front field state next hFront h hStep
    exact h.step hFront hStep

end

/-! ### Structures -/

def IsTyped (scope : Scope) (field : FieldDecl) (typed : TypedField) : Prop :=
  typed.decl = field ∧ scope.role field = .ok typed.role

def Assembles (scope : Scope) (message : MessageNode) (s : Struct) : Prop :=
  s.name = typePathName message.typeName ∧ ∃ typed used, List.Forall₂ (IsTyped scope) message.decl.fields typed ∧
    s.fields = (assemble scope.file message used typed).fields

theorem isTyped_of_typedFields {scope : Scope} {path : SourcePath} {start : Nat} {fields : List FieldDecl}
    {typed : List TypedField} (h : scope.typedFields path start fields = .ok typed) :
    List.Forall₂ (IsTyped scope) fields typed := by
  induction fields generalizing start typed with
  | nil =>
    cases h
    exact .nil
  | cons field rest ih =>
    obtain ⟨role, hRole, h⟩ := bind_ok_iff.mp h
    obtain ⟨others, hRest, h⟩ := bind_ok_iff.mp h
    cases h
    exact .cons ⟨rfl, hRole⟩ (ih hRest)

theorem typed_of_typedMessage {scope : Scope} {message : MessageNode} {typed : TypedMessage}
    (h : scope.typedMessage message = .ok typed) :
    typed.node = message ∧ List.Forall₂ (IsTyped scope) message.decl.fields typed.fields := by
  unfold Scope.typedMessage at h
  split at h
  · rename_i fields hFields
    cases h
    exact ⟨rfl, isTyped_of_typedFields hFields⟩
  · cases h

theorem assembled_structs (file : FileNode) (typeNames : List String) (messages : List TypedMessage) :
    List.Forall₂ (fun message s => s.name = typePathName message.node.typeName ∧
        ∃ used, s.fields = (assemble file message.node used message.fields).fields)
      messages (Scope.structs file typeNames messages) := by
  induction messages generalizing typeNames with
  | nil => exact .nil
  | cons message rest ih => exact .cons ⟨rfl, typeNames, rfl⟩ (ih _)

theorem assembles_of_ofScope {scope : Scope} {model : ModelFile} (h : ModelFile.ofScope scope = .ok model) :
    List.Forall₂ (Assembles scope) scope.declaredMessages model.structs := by
  unfold ModelFile.ofScope at h
  split at h
  · cases h
  · rename_i messages hMessages
    cases h
    refine forall₂_trans ?_ (forall₂_of_mapM hMessages) (assembled_structs scope.file scope.declaredNames messages)
    rintro message typed s hTyped ⟨hName, used, hFields⟩
    obtain ⟨rfl, hTypedFields⟩ := typed_of_typedMessage hTyped
    exact ⟨hName, typed.fields, used, hTypedFields, hFields⟩

section

variable {scope : Scope} {fields : List FieldDecl} {typed : List TypedField}
  (h : List.Forall₂ (IsTyped scope) fields typed)
include h

theorem map_decl_ofHome (home : Option Int) :
    (ofHome home typed).map (·.decl) = fields.filter fun field => field.home = home := by
  induction h with
  | nil => rfl
  | @cons field typed fields rest hHead _ ih =>
    obtain ⟨rfl, hRole⟩ := hHead
    have hHome := Scope.home_of_role hRole
    rw [ofHome] at ih ⊢
    by_cases hSame : typed.role.home = home
    · rw [List.filter_cons_of_pos (by simpa using hSame), List.map_cons, ih,
        List.filter_cons_of_pos (by simpa [← hHome] using hSame)]
    · rw [List.filter_cons_of_neg (by simpa using hSame), ih,
        List.filter_cons_of_neg (by simpa [← hHome] using hSame)]

theorem map_home : typed.map (·.role.home) = fields.map FieldDecl.home := by
  induction h with
  | nil => rfl
  | cons hHead _ ih =>
    obtain ⟨rfl, hRole⟩ := hHead
    rw [List.map_cons, ih, Scope.home_of_role hRole, List.map_cons]

theorem decl_mem : ∀ t ∈ typed, t.decl ∈ fields := by
  intro t hT
  obtain ⟨field, hField, rfl, -⟩ := exists_of_forall₂_right h t hT
  exact hField

end

end ProtoBind.Emit
