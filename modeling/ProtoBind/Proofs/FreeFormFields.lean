import ProtoBind.Proofs.NameBijection
import ProtoBind.Proofs.ResolvedTypes

/-!
# Fields of free form

Four well-known types are rendered by what they hold. They are known by their names alone wherever a field names
one, but a repeated field looks its type name up first, to see whether it is a map: it is rendered only if the name
leads somewhere.
-/

set_option autoImplicit false

namespace ProtoBind

def Graph.isPair (g : Graph) : Symbol → Bool
  | .message file i => (g.message? file i).any fun entry => entry.decl.isMapEntry && 2 ≤ entry.decl.fields.length
  | _ => false

namespace Emit

open Naming

/-- The well-known types of free form, with the types that they are rendered as. -/
def freeFormTypes : List (String × String) :=
  [(".google.protobuf.Any", "serde_json::Value"), (".google.protobuf.Value", "serde_json::Value"),
    (".google.protobuf.Struct", "serde_json::Map<String, serde_json::Value>"),
    (".google.protobuf.ListValue", "Vec<serde_json::Value>")]

/-- The positions in which a field of free form stands, and how it is rendered there. No index decides about the
field where it is not repeated. -/
structure Collapses (scope : Scope) (field : FieldDecl) (text : String) : Prop where
  member : ∀ oneof, field.oneofIndex = some oneof → field.proto3Optional = false → ∃ element,
    scope.role field = .ok (.member oneof element) ∧
      ∀ (member : Member) names, member.element = element → member.payload names = text
  single : field.inOneof = false → field.label ≠ .repeated → ∃ shape,
    scope.role field = .ok (.plain shape) ∧ ∀ names, shape.text names = text
  value : ∀ owner key k, owner.inOneof = false → scope.mapEntry? owner = .ok (some (key, field)) →
    scope.element key = .ok k → ∃ shape, scope.role owner = .ok (.plain shape) ∧
      ∀ names, shape.text names = "HashMap<" ++ k.text names ++ ", " ++ text ++ ">"
  repeated : field.inOneof = false → field.label = .repeated →
    ((∃ shape, scope.role field = .ok (.plain shape) ∧ ∀ names, shape.text names = "Vec<" ++ text ++ ">") ↔
      ∃ s, scope.index.get field.typeName = .ok s ∧ scope.graph.isPair s = false)
  missing : field.inOneof = false → field.label = .repeated →
    (scope.role field = .error (.objectNotFound field.typeName) ↔ ∀ s, scope.index.get field.typeName ≠ .ok s)

/-! ### Roles -/

theorem text_ofTypeName? :
    ∀ entry ∈ freeFormTypes, (FreeForm.ofTypeName? entry.1).map FreeForm.text = some entry.2 := by
  decide

section

variable {scope : Scope} {field : FieldDecl}

theorem role_of_inOneof {oneof : Int} (hOneof : field.oneofIndex = some oneof)
    (hShared : field.proto3Optional = false) : scope.role field = (scope.element field).map (.member oneof) := by
  rw [Scope.role, hOneof, hShared]

theorem role_of_not_inOneof (h : field.inOneof = false) : scope.role field = (scope.shape field).map .plain := by
  unfold Scope.role
  split
  · rename_i oneof hOneof hShared
    rw [FieldDecl.inOneof, hOneof, hShared] at h
    cases h
  · rfl

section

variable (hAlone : field.inOneof = false)
include hAlone

theorem role_eq_ok_iff_shape {shape : Shape} :
    scope.role field = .ok (.plain shape) ↔ scope.shape field = .ok shape := by
  rw [role_of_not_inOneof hAlone]
  cases scope.shape field with
  | error e => exact ⟨nofun, nofun⟩
  | ok found =>
    refine ⟨fun h => ?_, fun h => ?_⟩
    · cases h
      rfl
    · cases h
      rfl

theorem role_eq_error_iff_shape {e : Error} : scope.role field = .error e ↔ scope.shape field = .error e := by
  rw [role_of_not_inOneof hAlone]
  cases scope.shape field with
  | error other =>
    refine ⟨fun h => ?_, fun h => ?_⟩
    · cases h
      rfl
    · cases h
      rfl
  | ok found => exact ⟨nofun, nofun⟩

end

theorem shape_of_element {element : Element} (hNone : scope.mapEntry? field = .ok none)
    (hElement : scope.element field = .ok element) : scope.shape field
      = .ok (if field.label = .repeated then .many element else scope.single field element) := by
  refine bind_ok_iff.mpr ⟨none, hNone, bind_ok_iff.mpr ⟨element, hElement, ?_⟩⟩
  split <;> rfl

/-! ### Names that are looked up -/

/-- The name that an element is not found by is that of its field, which then leads nowhere. -/
theorem get_of_element_error {e : Error} (h : scope.element field = .error e) :
    scope.index.get field.typeName = .error e := by
  have hResolve : ∀ make : Reference → Element, (scope.resolve field.typeName).map make = .error e →
      scope.index.get field.typeName = .error e := by
    intro make hMake
    unfold Scope.resolve at hMake
    cases hGet : scope.index.get field.typeName with
    | error other =>
      rw [hGet] at hMake
      cases hMake
      rfl
    | ok s =>
      rw [hGet] at hMake
      cases hMake
  rw [Scope.element] at h
  cases hType : field.type with
  | enum =>
    rw [hType] at h
    exact hResolve _ h
  | message | group =>
    rw [hType] at h
    dsimp only at h
    split at h
    · cases h
    · exact hResolve _ h
  | _ =>
    rw [hType] at h
    cases h

theorem exists_map_of_mapEntry? {pair : FieldDecl × FieldDecl} {shape : Shape}
    (hPair : scope.mapEntry? field = .ok (some pair)) (h : scope.shape field = .ok shape) :
    ∃ k v, shape = .map k v := by
  rcases shape_ok_cases h with ⟨-, -, k, v, -, -, -, hMap⟩ | ⟨hNone, -⟩
  · exact ⟨k, v, hMap⟩
  · rw [hPair] at hNone
    cases hNone

/-- A map cannot be rendered only if its key or its value names what leads nowhere. -/
theorem get_of_map_error {key value : FieldDecl} {e : Error}
    (hPair : scope.mapEntry? field = .ok (some (key, value))) (h : scope.shape field = .error e) :
    ∃ typeName, scope.index.get typeName = .error e := by
  have hShape : scope.shape field
      = (scope.element key >>= fun k => scope.element value >>= fun v => .ok (.map k v)) := by
    rw [Scope.shape, hPair]
    rfl
  rw [hShape] at h
  cases hKey : scope.element key with
  | error other =>
    rw [hKey] at h
    cases h
    exact ⟨_, get_of_element_error hKey⟩
  | ok k =>
    rw [hKey] at h
    cases hValue : scope.element value with
    | error other =>
      rw [hValue] at h
      cases h
      exact ⟨_, get_of_element_error hValue⟩
    | ok v =>
      rw [hValue] at h
      cases h

section

variable (hLabel : field.label = .repeated) (hNamed : field.typeName ≠ "")
include hLabel hNamed

theorem mapEntry?_of_error {e : Error} (h : scope.index.get field.typeName = .error e) :
    scope.mapEntry? field = .error e := by
  unfold Scope.mapEntry?
  rw [if_pos ⟨hLabel, hNamed⟩, h]

/-- A repeated field with a name that leads somewhere is a map just where that is a pair. -/
theorem mapEntry?_of_ok {s : Symbol} (h : scope.index.get field.typeName = .ok s) :
    ∃ pair, scope.mapEntry? field = .ok pair ∧ pair.isSome = scope.graph.isPair s := by
  unfold Scope.mapEntry?
  rw [if_pos ⟨hLabel, hNamed⟩, h]
  cases s with
  | enum file i | extension file i | imported file target => exact ⟨none, rfl, rfl⟩
  | message file i =>
    dsimp only [Graph.isPair]
    cases scope.graph.message? file i with
    | none => exact ⟨none, rfl, rfl⟩
    | some entry =>
      dsimp only [Option.any_some]
      cases entry.decl.isMapEntry with
      | false => exact ⟨none, rfl, rfl⟩
      | true =>
        match entry.decl.fields with
        | [] => exact ⟨none, rfl, rfl⟩
        | [_] => exact ⟨none, rfl, rfl⟩
        | key :: value :: rest => exact ⟨some (key, value), rfl, by simp⟩

end

end

/-! ### Positions -/

section

variable {scope : Scope} {field : FieldDecl} {text : String}

/-- An element of free form is told by the name of its type alone. -/
theorem element_of_freeForm (hType : field.namesMessage = true) (hName : (field.typeName, text) ∈ freeFormTypes) :
    ∃ form : FreeForm, form.text = text ∧ scope.element field = .ok (.freeForm form) := by
  obtain ⟨form, hForm, hText⟩ := Option.map_eq_some_iff.mp (text_ofTypeName? _ hName)
  refine ⟨form, hText, ?_⟩
  unfold Scope.element
  rw [hForm]
  simp only [FieldDecl.namesMessage, Bool.or_eq_true, beq_iff_eq] at hType
  rcases hType with hMessage | hGroup
  · rw [hMessage]
  · rw [hGroup]

theorem ne_empty_of_freeForm (hName : (field.typeName, text) ∈ freeFormTypes) : field.typeName ≠ "" := by
  have hNames : ∀ entry ∈ freeFormTypes, entry.1 ≠ "" := by decide
  exact hNames _ hName

section

variable {form : FreeForm} (hElement : scope.element field = .ok (.freeForm form))
include hElement

theorem role_of_member {oneof : Int} (hOneof : field.oneofIndex = some oneof) (hShared : field.proto3Optional = false) :
    scope.role field = .ok (.member oneof (.freeForm form)) := by
  rw [role_of_inOneof hOneof hShared, hElement]
  rfl

theorem role_of_single (hAlone : field.inOneof = false) (hLabel : field.label ≠ .repeated) :
    scope.role field = .ok (.plain (.one (.freeForm form))) := by
  have hNone : scope.mapEntry? field = .ok none := if_neg fun h => hLabel h.1
  rw [role_eq_ok_iff_shape hAlone, shape_of_element hNone hElement, if_neg hLabel]
  rfl

theorem role_of_value {owner key : FieldDecl} {k : Element} (hAlone : owner.inOneof = false)
    (hPair : scope.mapEntry? owner = .ok (some (key, field))) (hKey : scope.element key = .ok k) :
    scope.role owner = .ok (.plain (.map k (.freeForm form))) := by
  rw [role_eq_ok_iff_shape hAlone]
  exact bind_ok_iff.mpr ⟨_, hPair, bind_ok_iff.mpr ⟨k, hKey, bind_ok_iff.mpr ⟨_, hElement, rfl⟩⟩⟩

variable (hAlone : field.inOneof = false) (hLabel : field.label = .repeated) (hNamed : field.typeName ≠ "")
include hAlone hLabel hNamed

theorem role_of_repeated {s : Symbol} (hGet : scope.index.get field.typeName = .ok s)
    (hKind : scope.graph.isPair s = false) : scope.role field = .ok (.plain (.many (.freeForm form))) := by
  obtain ⟨pair, hPair, hSome⟩ := mapEntry?_of_ok hLabel hNamed hGet
  rw [hKind, Option.isSome_eq_false_iff, Option.isNone_iff_eq_none] at hSome
  rw [hSome] at hPair
  rw [role_eq_ok_iff_shape hAlone, shape_of_element hPair hElement, if_pos hLabel]

/-- A repeated field that is missing is missing by its own name, even where its name leads to a map entry. -/
theorem role_missing_iff : scope.role field = .error (.objectNotFound field.typeName) ↔
    ∀ s, scope.index.get field.typeName ≠ .ok s := by
  rw [role_eq_error_iff_shape hAlone]
  constructor
  · intro hError s hGet
    obtain ⟨pair, hPair, -⟩ := mapEntry?_of_ok hLabel hNamed hGet
    cases pair with
    | none =>
      rw [shape_of_element hPair hElement] at hError
      cases hError
    | some pair =>
      obtain ⟨typeName, hMissing⟩ := get_of_map_error hPair hError
      cases NameIndex.get_error hMissing
      rw [hGet] at hMissing
      cases hMissing
  · intro hNowhere
    cases hGet : scope.index.get field.typeName with
    | ok s => exact absurd hGet (hNowhere s)
    | error e =>
      rw [NameIndex.get_error hGet] at hGet
      rw [Scope.shape, mapEntry?_of_error hLabel hNamed hGet]
      rfl

end

/-- A repeated field that becomes a vector names what is no pair. -/
theorem get_of_vec {shape : Shape} (hAlone : field.inOneof = false) (hLabel : field.label = .repeated)
    (hNamed : field.typeName ≠ "") (hRole : scope.role field = .ok (.plain shape))
    (hVec : shape.text {} = "Vec<" ++ text ++ ">") :
    ∃ s, scope.index.get field.typeName = .ok s ∧ scope.graph.isPair s = false := by
  rw [role_eq_ok_iff_shape hAlone] at hRole
  cases hGet : scope.index.get field.typeName with
  | error e =>
    rw [Scope.shape, mapEntry?_of_error hLabel hNamed hGet] at hRole
    cases hRole
  | ok s =>
    obtain ⟨pair, hPair, hKind⟩ := mapEntry?_of_ok hLabel hNamed hGet
    refine ⟨s, rfl, ?_⟩
    cases pair with
    | none => exact hKind.symm
    | some pair =>
      obtain ⟨k, v, rfl⟩ := exists_map_of_mapEntry? hPair hRole
      exact absurd (congrArg (·.toList.head?) hVec) (by simp [Shape.text])

/-- A field of a well-known type of free form is rendered by its name alone in each position but one: repeated, it is
rendered just where its name leads to something that is no map entry, and is reported as missing just where its name
leads nowhere. -/
theorem freeForm_collapses (scope : Scope) (hType : field.namesMessage = true)
    (hName : (field.typeName, text) ∈ freeFormTypes) : Collapses scope field text := by
  obtain ⟨form, hText, hElement⟩ := @element_of_freeForm scope field text hType hName
  have hNamed := ne_empty_of_freeForm hName
  constructor
  · intro oneof hOneof hShared
    refine ⟨_, role_of_member hElement hOneof hShared, fun member names hMember => ?_⟩
    unfold Member.payload
    rw [hMember]
    exact hText
  · intro hAlone hLabel
    exact ⟨_, role_of_single hElement hAlone hLabel, fun _ => hText⟩
  · intro owner key k hAlone hPair hKey
    refine ⟨_, role_of_value hElement hAlone hPair hKey, fun names => ?_⟩
    rw [← hText]
    rfl
  · intro hAlone hLabel
    constructor
    · rintro ⟨shape, hRole, hVec⟩
      exact get_of_vec hAlone hLabel hNamed hRole (hVec {})
    · rintro ⟨s, hGet, hKind⟩
      refine ⟨_, role_of_repeated hElement hAlone hLabel hNamed hGet hKind, fun names => ?_⟩
      rw [← hText]
      rfl
  · intro hAlone hLabel
    exact role_missing_iff hElement hAlone hLabel hNamed

end

/-- A file with a field of a well-known type whose own file is not there. -/
def unwrappedFile (label : Label) : FileDecl where
  name := "a.proto"
  messages := [.mk "M" [{ name := "x", number := 1, label, type := .message, typeName := ".google.protobuf.Any" }]
    [] [] [] [] [] [] false false []]

/-- The field is rendered if it is single, and ends the run if it is repeated. -/
theorem freeForm_collapses_unwrappedFile :
    (∀ field ∈ (singleFileScope (unwrappedFile .optional)).graph.fields, ∃ shape,
      (singleFileScope (unwrappedFile .optional)).role field = .ok (.plain shape) ∧
        ∀ names, shape.text names = "serde_json::Value") ∧
    (∀ field ∈ (singleFileScope (unwrappedFile .repeated)).graph.fields,
      (singleFileScope (unwrappedFile .repeated)).role field = .error (.objectNotFound ".google.protobuf.Any")) ∧
    ModelFile.ofScope (singleFileScope (unwrappedFile .repeated))
        = .error (.objectNotFound ".google.protobuf.Any") := by
  refine ⟨fun field hField => ?_, fun field hField => ?_, rfl⟩
  · cases List.mem_singleton.mp hField
    exact (freeForm_collapses _ rfl List.mem_cons_self).single rfl nofun
  · cases List.mem_singleton.mp hField
    exact ((freeForm_collapses _ rfl List.mem_cons_self).missing rfl rfl).mpr nofun

end Emit

end ProtoBind
