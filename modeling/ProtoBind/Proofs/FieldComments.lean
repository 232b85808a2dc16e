import Mathlib.Data.List.Forall2
import Mathlib.Data.List.Nodup
import ProtoBind.Emit.Model

/-!
# Comments on fields

The fields of a message are put together one by one: those that stand alone as they come, the members of a
oneof as the members of one field. Each keeps its own comment on the way.
-/

set_option autoImplicit false

namespace ProtoBind

open Emit

/-- What is said of a field: its serialized name, the comment on it, and whether it is deprecated. -/
structure Note where
  wireName : String
  comment : Option String
  deprecated : Bool

namespace FieldDecl

/-- The oneof that a field is a member of. One that is optional by its own oneof stands alone. -/
def home (field : FieldDecl) : Option Int := if field.proto3Optional then none else field.oneofIndex

def note (field : FieldDecl) (comment : Option String) : Note :=
  ⟨field.jsonName.getD field.name, comment, field.deprecated⟩

end FieldDecl

namespace Emit

def Role.home : Role → Option Int
  | .plain _ => none
  | .member index _ => some index

def TypedField.note (field : TypedField) : Note := field.decl.note field.comment

def PlainField.note (field : PlainField) : Note := ⟨field.wireName, field.comment, field.deprecated⟩

def Member.note (member : Member) : Note := ⟨member.wireName, member.comment, member.deprecated⟩

namespace Scope

theorem home_of_role {scope : Scope} {field : FieldDecl} {role : Role} (h : scope.role field = .ok role) :
    role.home = field.home := by
  unfold Scope.role at h
  unfold FieldDecl.home
  split at h
  · rename_i index hIndex hOptional
    cases hElement : scope.element field with
    | error e =>
      rw [hElement] at h
      cases h
    | ok element =>
      rw [hElement] at h
      cases h
      rw [hOptional, hIndex]
      rfl
  · rename_i hAlone
    cases hShape : scope.shape field with
    | error e =>
      rw [hShape] at h
      cases h
    | ok shape =>
      rw [hShape] at h
      cases h
      cases hOptional : field.proto3Optional with
      | true => rfl
      | false =>
        cases hIndex : field.oneofIndex with
        | none => rfl
        | some index => exact absurd hOptional (hAlone index hIndex)

/-- Typed fields are members of the same oneofs as the fields that they are made of, and have the comments
at the paths of these. -/
theorem notes_of_typedFields {scope : Scope} {path : SourcePath} {start : Nat} {fields : List FieldDecl}
    {typed : List TypedField} (h : scope.typedFields path start fields = .ok typed) :
    typed.map (fun field => (field.role.home, field.note))
      = (fields.zipIdx start).map fun (field, i) =>
        (field.home, field.note (scope.file.comment? (path.field i))) := by
  induction fields generalizing start typed with
  | nil =>
    cases h
    rfl
  | cons field rest ih =>
    rw [typedFields] at h
    cases hRole : scope.role field with
    | error e =>
      rw [hRole] at h
      cases h
    | ok role =>
      rw [hRole] at h
      cases hRest : scope.typedFields path (start + 1) rest with
      | error e =>
        simp only [hRest, bind, Except.bind] at h
        cases h
      | ok others =>
        simp only [hRest, bind, Except.bind] at h
        cases h
        rw [List.map_cons, ih hRest, List.zipIdx_cons, List.map_cons, home_of_role hRole]
        rfl

end Scope

/-! ### Fields of structures -/

namespace Field

def plain? : Field → Option PlainField
  | .plain field => some field
  | .oneof _ => none

def oneof? : Field → Option OneofField
  | .plain _ => none
  | .oneof field => some field

end Field

def plains (fields : List Field) : List PlainField := fields.filterMap Field.plain?

def oneofs (fields : List Field) : List OneofField := fields.filterMap Field.oneof?

def OneofField.withMember (index : Int) (member : Member) (oneof : OneofField) : OneofField :=
  if oneof.index = index then { oneof with members := oneof.members ++ [member] } else oneof

section

variable (index : Int) (member : Member) (fields : List Field)

theorem plains_addMember : plains (fields.map (Field.addMember index member)) = plains fields := by
  rw [plains, plains, List.filterMap_map]
  congr 1
  funext field
  cases field with
  | plain field => rfl
  | oneof field =>
    rw [Function.comp_apply, Field.addMember]
    split <;> rfl

theorem oneofs_addMember : oneofs (fields.map (Field.addMember index member))
    = (oneofs fields).map (OneofField.withMember index member) := by
  rw [oneofs, oneofs, List.filterMap_map, List.map_filterMap]
  congr 1
  funext field
  cases field with
  | plain field => rfl
  | oneof field =>
    rw [Function.comp_apply, Field.addMember, Field.oneof?, Option.map_some, OneofField.withMember]
    split <;> rfl

theorem any_isOneof : fields.any (Field.isOneof index) = true ↔ ∃ o ∈ oneofs fields, o.index = index := by
  rw [List.any_eq_true]
  constructor
  · rintro ⟨field, hField, hIndex⟩
    cases field with
    | plain field => cases hIndex
    | oneof field => exact ⟨field, List.mem_filterMap.mpr ⟨_, hField, rfl⟩, beq_iff_eq.mp hIndex⟩
  · rintro ⟨o, hO, hIndex⟩
    obtain ⟨field, hField, hSome⟩ := List.mem_filterMap.mp hO
    cases field with
    | plain field => cases hSome
    | oneof field =>
      cases hSome
      exact ⟨_, hField, beq_iff_eq.mpr hIndex⟩

end

theorem index_withMember (index : Int) (member : Member) (oneof : OneofField) :
    (oneof.withMember index member).index = oneof.index := by
  unfold OneofField.withMember
  split <;> rfl

def notesOf (home : Option Int) (typed : List TypedField) : List Note :=
  (typed.filter fun field => field.role.home = home).map TypedField.note

theorem notesOf_concat (home : Option Int) (typed : List TypedField) (field : TypedField) :
    notesOf home (typed ++ [field])
      = notesOf home typed ++ if field.role.home = home then [field.note] else [] := by
  rw [notesOf, List.filter_append, List.map_append]
  congr 1
  by_cases hHome : field.role.home = home <;> simp [hHome]

/-- What the fields of a structure say once some fields of the message have been put together. -/
structure Assembled (file : FileNode) (message : MessageNode) (typed : List TypedField)
    (fields : List Field) : Prop where
  plain : (plains fields).map PlainField.note = notesOf none typed
  omitted : ∀ field ∈ plains fields, field.omitEmpty = (Directives.ofComment? field.comment).omitempty
  members : ∀ o ∈ oneofs fields, o.members.map Member.note = notesOf (some o.index) typed
  covered : ∀ field ∈ typed, ∀ index, field.role.home = some index → ∃ o ∈ oneofs fields, o.index = index
  distinct : ((oneofs fields).map (·.index)).Nodup
  remarks : ∀ o ∈ oneofs fields, o.comment = oneofComment? file message o.index

/-- One more field stands alone, joins the members of a oneof that is there, or begins a new one. -/
theorem add_cases (file : FileNode) (message : MessageNode) (state : Assembly) (field : TypedField) :
    (field.role.home = none ∧ ∃ plain : PlainField,
      (state.add file message field).fields = state.fields ++ [Field.plain plain] ∧ plain.note = field.note ∧
        plain.omitEmpty = (Directives.ofComment? plain.comment).omitempty) ∨
    ∃ index, field.role.home = some index ∧
      ((∃ member : Member, (∃ o ∈ oneofs state.fields, o.index = index) ∧
          (state.add file message field).fields = state.fields.map (Field.addMember index member) ∧
          member.note = field.note) ∨
        ∃ o : OneofField, (∀ other ∈ oneofs state.fields, other.index ≠ index) ∧
          (state.add file message field).fields = state.fields ++ [Field.oneof o] ∧ o.index = index ∧
          o.members.map Member.note = [field.note] ∧ o.comment = oneofComment? file message index) := by
  unfold Assembly.add
  cases hRole : field.role with
  | plain shape => exact .inl ⟨rfl, _, rfl, rfl, rfl⟩
  | member index element =>
    refine .inr ⟨index, rfl, ?_⟩
    dsimp only
    split
    · rename_i hKnown
      exact .inl ⟨_, (any_isOneof index state.fields).mp hKnown, rfl, rfl⟩
    · rename_i hNew
      refine .inr ⟨_, ?_, rfl, rfl, rfl, rfl⟩
      intro other hOther hIndex
      exact hNew ((any_isOneof index state.fields).mpr ⟨other, hOther, hIndex⟩)

section

variable {file : FileNode} {message : MessageNode} {typed : List TypedField}

theorem assembled_nil : Assembled file message [] [] where
  plain := rfl
  omitted _ hField := absurd hField List.not_mem_nil
  members _ hOneof := absurd hOneof List.not_mem_nil
  covered _ hField := absurd hField List.not_mem_nil
  distinct := List.nodup_nil
  remarks _ hOneof := absurd hOneof List.not_mem_nil

theorem Assembled.plain_concat {fields : List Field} (h : Assembled file message typed fields)
    {field : TypedField} (hHome : field.role.home = none) {plain : PlainField}
    (hNote : plain.note = field.note)
    (hOmit : plain.omitEmpty = (Directives.ofComment? plain.comment).omitempty) :
    Assembled file message (typed ++ [field]) (fields ++ [Field.plain plain]) := by
  have hPlains : plains (fields ++ [Field.plain plain]) = plains fields ++ [plain] := List.filterMap_append
  have hOneofs : oneofs (fields ++ [Field.plain plain]) = oneofs fields :=
    List.filterMap_append.trans (List.append_nil _)
  constructor
  case plain => rw [hPlains, List.map_append, h.plain, notesOf_concat, if_pos hHome, List.map_singleton, hNote]
  case omitted =>
    intro other hOther
    rw [hPlains, List.mem_append, List.mem_singleton] at hOther
    rcases hOther with hOther | rfl
    · exact h.omitted other hOther
    · exact hOmit
  case members =>
    intro o hO
    rw [hOneofs] at hO
    rw [h.members o hO, notesOf_concat, hHome, if_neg (Option.some_ne_none _).symm, List.append_nil]
  case covered =>
    intro other hOther index hIndex
    rw [hOneofs]
    rcases List.mem_append.mp hOther with hOther | hOther
    · exact h.covered other hOther index hIndex
    · rw [List.mem_singleton.mp hOther, hHome] at hIndex
      cases hIndex
  case distinct =>
    rw [hOneofs]
    exact h.distinct
  case remarks =>
    rw [hOneofs]
    exact h.remarks

theorem Assembled.member_concat {fields : List Field} (h : Assembled file message typed fields)
    {field : TypedField} {index : Int} (hHome : field.role.home = some index) {member : Member}
    (hKnown : ∃ o ∈ oneofs fields, o.index = index) (hNote : member.note = field.note) :
    Assembled file message (typed ++ [field]) (fields.map (Field.addMember index member)) := by
  constructor
  case plain => rw [plains_addMember, h.plain, notesOf_concat, hHome, if_neg (Option.some_ne_none _), List.append_nil]
  case omitted =>
    rw [plains_addMember]
    exact h.omitted
  case members =>
    rw [oneofs_addMember]
    intro o hO
    obtain ⟨first, hFirst, rfl⟩ := List.mem_map.mp hO
    rw [index_withMember, notesOf_concat, ← h.members first hFirst, hHome, OneofField.withMember]
    by_cases hIndex : first.index = index
    · rw [if_pos hIndex, if_pos (congrArg some hIndex.symm), List.map_append, List.map_singleton, hNote]
    · rw [if_neg hIndex, if_neg fun hSame => hIndex (Option.some.inj hSame).symm, List.append_nil]
  case covered =>
    rw [oneofs_addMember]
    have hAll : ∀ other : Int, (∃ o ∈ oneofs fields, o.index = other) →
        ∃ o ∈ (oneofs fields).map (OneofField.withMember index member), o.index = other := by
      rintro other ⟨o, hO, rfl⟩
      exact ⟨_, List.mem_map_of_mem hO, index_withMember index member o⟩
    intro other hOther place hPlace
    apply hAll
    rcases List.mem_append.mp hOther with hOther | hOther
    · exact h.covered other hOther place hPlace
    · rw [List.mem_singleton.mp hOther, hHome] at hPlace
      exact Option.some.inj hPlace ▸ hKnown
  case distinct =>
    rw [oneofs_addMember, List.map_map]
    have hSame : ((·.index) ∘ OneofField.withMember index member) = fun o : OneofField => o.index :=
      funext fun o => index_withMember index member o
    rw [hSame]
    exact h.distinct
  case remarks =>
    rw [oneofs_addMember]
    intro o hO
    obtain ⟨first, hFirst, rfl⟩ := List.mem_map.mp hO
    rw [index_withMember, ← h.remarks first hFirst, OneofField.withMember]
    split <;> rfl

theorem Assembled.oneof_concat {fields : List Field} (h : Assembled file message typed fields)
    {field : TypedField} {index : Int} (hHome : field.role.home = some index) {o : OneofField}
    (hNew : ∀ other ∈ oneofs fields, other.index ≠ index) (hIndex : o.index = index)
    (hMembers : o.members.map Member.note = [field.note])
    (hComment : o.comment = oneofComment? file message index) :
    Assembled file message (typed ++ [field]) (fields ++ [Field.oneof o]) := by
  have hPlains : plains (fields ++ [Field.oneof o]) = plains fields :=
    List.filterMap_append.trans (List.append_nil _)
  have hOneofs : oneofs (fields ++ [Field.oneof o]) = oneofs fields ++ [o] := List.filterMap_append
  -- A field of the oneof that stood before would have made it known.
  have hFirst : notesOf (some index) typed = [] := by
    rw [notesOf, List.map_eq_nil_iff, List.filter_eq_nil_iff]
    intro other hOther hSame
    obtain ⟨known, hKnown, hPlace⟩ := h.covered other hOther index (by simpa using hSame)
    exact hNew known hKnown hPlace
  constructor
  case plain => rw [hPlains, h.plain, notesOf_concat, hHome, if_neg (Option.some_ne_none _), List.append_nil]
  case omitted =>
    rw [hPlains]
    exact h.omitted
  case members =>
    intro other hOther
    rw [hOneofs, List.mem_append, List.mem_singleton] at hOther
    rw [notesOf_concat, hHome]
    rcases hOther with hOther | rfl
    · rw [h.members other hOther, if_neg fun hSame => hNew other hOther (Option.some.inj hSame).symm,
        List.append_nil]
    · rw [hIndex, hFirst, if_pos rfl, List.nil_append, hMembers]
  case covered =>
    intro other hOther place hPlace
    rw [hOneofs]
    rcases List.mem_append.mp hOther with hOther | hOther
    · obtain ⟨known, hKnown, hSame⟩ := h.covered other hOther place hPlace
      exact ⟨known, List.mem_append_left _ hKnown, hSame⟩
    · rw [List.mem_singleton.mp hOther, hHome] at hPlace
      exact ⟨o, List.mem_append_right _ List.mem_cons_self, hIndex.trans (Option.some.inj hPlace)⟩
  case distinct =>
    rw [hOneofs, List.map_append, List.nodup_append]
    refine ⟨h.distinct, List.nodup_singleton _, ?_⟩
    intro a hA b hB hSame
    obtain ⟨other, hOther, rfl⟩ := List.mem_map.mp hA
    rw [List.map_singleton, List.mem_singleton] at hB
    exact hNew other hOther (hSame.trans (hB.trans hIndex))
  case remarks =>
    intro other hOther
    rw [hOneofs, List.mem_append, List.mem_singleton] at hOther
    rcases hOther with hOther | rfl
    · exact h.remarks other hOther
    · rw [hIndex, hComment]

/-- One more field keeps what the fields of a structure say. -/
theorem Assembled.add {state : Assembly} (h : Assembled file message typed state.fields)
    (field : TypedField) :
    Assembled file message (typed ++ [field]) (state.add file message field).fields := by
  rcases add_cases file message state field with
    ⟨hHome, plain, hFields, hNote, hOmit⟩ | ⟨index, hHome, ⟨member, hKnown, hFields, hNote⟩ |
      ⟨o, hNew, hFields, hIndex, hMembers, hComment⟩⟩
  · rw [hFields]
    exact h.plain_concat hHome hNote hOmit
  · rw [hFields]
    exact h.member_concat hHome hKnown hNote
  · rw [hFields]
    exact h.oneof_concat hHome hNew hIndex hMembers hComment

/-- The fields of a structure say what the fields of its message do. -/
theorem assembled_assemble (file : FileNode) (message : MessageNode) (typeNames : List String)
    (typed : List TypedField) :
    Assembled file message typed (assemble file message typeNames typed).fields := by
  have hFold : ∀ (front : List TypedField) (state : Assembly), Assembled file message front state.fields →
      Assembled file message (front ++ typed) (typed.foldl (Assembly.add file message) state).fields := by
    induction typed with
    | nil => simp
    | cons field rest ih =>
      intro front state h
      have hRest := ih (front ++ [field]) _ (h.add field)
      rwa [List.append_assoc, List.singleton_append] at hRest
  exact hFold [] { typeNames } assembled_nil

end

/-! ### Structures -/

structure StructOf (file : FileNode) (message : TypedMessage) (s : Struct) : Prop where
  comment : s.comment = file.comment? message.node.path
  deprecated : s.deprecated = message.node.decl.isDeprecated
  fields : Assembled file message.node message.fields s.fields

theorem structs_of_messages (file : FileNode) (typeNames : List String) (messages : List TypedMessage) :
    List.Forall₂ (StructOf file) messages (Scope.structs file typeNames messages) := by
  induction messages generalizing typeNames with
  | nil => exact .nil
  | cons message rest ih =>
    refine .cons ⟨rfl, rfl, ?_⟩ (ih _)
    exact assembled_assemble file message.node typeNames message.fields

end Emit

end ProtoBind
