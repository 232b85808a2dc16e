import ProtoBind.Emit.Model
import ProtoBind.Proofs.CommentLines
import ProtoBind.Proofs.Silence
import ProtoBind.Proofs.TwoRuns

/-!
# Models without comments

What a model declares besides its comments, and that this alone decides the lines of the model that are
no comments. A comment on a field still says whether the field is left out while it is empty; no other
comment says anything to a model.
-/

set_option autoImplicit false

namespace ProtoBind.Emit

open Naming Text

namespace Scope

def silent (scope : Scope) : Scope := { scope with graph := scope.graph.silent }

variable (scope : Scope)

theorem file_silent : scope.silent.file = scope.file.silent := by
  rw [file, file, silent, Graph.file?_silent]
  cases scope.graph.file? scope.place <;> rfl

theorem homeOf_silent (place : Nat) : scope.silent.homeOf place = scope.homeOf place := by
  unfold homeOf
  rw [file_silent]
  simp only [silent, Graph.importPathOf_silent]
  rfl

theorem referTo_silent (s : Symbol) : scope.silent.referTo s = scope.referTo s := by
  unfold referTo
  rw [homeOf_silent]
  simp only [silent, Graph.typeName_silent]

theorem resolve_silent (typeName : String) : scope.silent.resolve typeName = scope.resolve typeName := by
  unfold resolve
  simp only [referTo_silent]
  rfl

theorem element_silent (field : FieldDecl) : scope.silent.element field = scope.element field := by
  unfold element
  simp only [resolve_silent]

theorem mapEntry?_silent (field : FieldDecl) : scope.silent.mapEntry? field = scope.mapEntry? field := by
  unfold mapEntry?
  simp only [silent, Graph.message?_silent]

theorem single_silent (field : FieldDecl) (element : Element) :
    scope.silent.single field element = scope.single field element := by
  unfold single
  rw [file_silent]
  rfl

theorem shape_silent (field : FieldDecl) : scope.silent.shape field = scope.shape field := by
  unfold shape
  simp only [mapEntry?_silent, element_silent, single_silent]

theorem role_silent (field : FieldDecl) : scope.silent.role field = scope.role field := by
  unfold role
  simp only [element_silent, shape_silent]

theorem aliases_silent : scope.silent.aliases = scope.aliases := by
  unfold aliases
  rw [file_silent]
  simp only [silent, Graph.importPathOf_silent, Graph.exportedNames_silent]
  rfl

theorem declaredMessages_silent : scope.silent.declaredMessages = scope.declaredMessages := by
  rw [declaredMessages, file_silent]
  rfl

theorem declaredNames_silent : scope.silent.declaredNames = scope.declaredNames := by
  rw [declaredNames, file_silent]
  rfl

end Scope

def omits (comment : Option String) : Bool := (Directives.ofComment? comment).omitempty

/-- A field that stands for itself in its structure: it is in no oneof, or in one of its own. -/
def StandsAlone (field : FieldDecl) : Prop := field.oneofIndex = none ∨ field.proto3Optional = true

/-- Comments on the fields of the declared messages that leave out the same of them while they are
empty. -/
def FieldsAgree (s t : Scope) : Prop :=
  ∀ message ∈ s.declaredMessages, ∀ i field, message.decl.fields[i]? = some field →
    StandsAlone field →
      omits (s.file.comment? (message.path.field i)) = omits (t.file.comment? (message.path.field i))

instance (field : FieldDecl) : Decidable (StandsAlone field) := inferInstanceAs (Decidable (_ ∨ _))

theorem forall_getElem?_iff {α : Type} {l : List α} {P : Nat → α → Prop} :
    (∀ (i : Nat) (a : α), l[i]? = some a → P i a) ↔ ∀ i : Fin l.length, P i l[i] := by
  constructor
  · intro h i
    exact h i _ (List.getElem?_eq_getElem i.isLt)
  · intro h i a hAt
    obtain ⟨hLt, rfl⟩ := List.getElem?_eq_some_iff.mp hAt
    exact h ⟨i, hLt⟩

instance decidableForallGetElem? {α : Type} (l : List α) (P : Nat → α → Prop) [∀ i a, Decidable (P i a)] :
    Decidable (∀ (i : Nat) (a : α), l[i]? = some a → P i a) :=
  decidable_of_iff _ forall_getElem?_iff.symm

instance (s t : Scope) : Decidable (FieldsAgree s t) :=
  inferInstanceAs (Decidable (∀ message ∈ s.declaredMessages, ∀ (i : Nat) (field : FieldDecl),
    message.decl.fields[i]? = some field → StandsAlone field → _ = _))

structure SameField (a b : TypedField) : Prop where
  decl : a.decl = b.decl
  role : a.role = b.role
  omits : ∀ shape, a.role = .plain shape → omits a.comment = omits b.comment

theorem standsAlone_of_role {scope : Scope} {field : FieldDecl} {shape : Shape}
    (h : scope.role field = .ok (.plain shape)) : StandsAlone field := by
  unfold Scope.role at h
  split at h
  · cases hElement : scope.element field with
    | error e => rw [hElement] at h; cases h
    | ok element => rw [hElement] at h; cases h
  · rename_i hNot
    cases hIndex : field.oneofIndex with
    | none => exact .inl hIndex
    | some index =>
      cases hOptional : field.proto3Optional with
      | true => exact .inr hOptional
      | false => exact (hNot index hIndex hOptional).elim

theorem typedMessage_eq (scope : Scope) (message : MessageNode) :
    scope.typedMessage message
      = (scope.typedFields message.path 0 message.decl.fields).map (TypedMessage.mk message) := by
  unfold Scope.typedMessage
  cases scope.typedFields message.path 0 message.decl.fields <;> rfl

section

variable {s t : Scope} (hSilent : s.silent = t.silent)
include hSilent

theorem role_congr (field : FieldDecl) : s.role field = t.role field := by
  rw [← Scope.role_silent s, hSilent, Scope.role_silent]

theorem typedFields_alike (path : SourcePath) (i : Nat) (fields : List FieldDecl)
    (hAgree : ∀ k field, fields[k]? = some field → StandsAlone field →
      omits (s.file.comment? (path.field (i + k))) = omits (t.file.comment? (path.field (i + k)))) :
    Alike (List.Forall₂ SameField) (s.typedFields path i fields) (t.typedFields path i fields) := by
  induction fields generalizing i with
  | nil => exact .ok .nil
  | cons field rest ih =>
    rw [Scope.typedFields, Scope.typedFields, role_congr hSilent]
    cases hRole : t.role field with
    | error e => exact .error e
    | ok role =>
      change Alike _ (s.typedFields path (i + 1) rest >>= _) (t.typedFields path (i + 1) rest >>= _)
      refine Alike.bind (ih (i + 1) ?_) ?_
      · intro k other hOther hAlone
        have hHere := hAgree (k + 1) other hOther hAlone
        rwa [Nat.add_comm k 1, ← Nat.add_assoc] at hHere
      · intro as bs hRest
        refine .ok (.cons ⟨rfl, rfl, ?_⟩ hRest)
        rintro shape rfl
        exact hAgree 0 field rfl (standsAlone_of_role hRole)

def SameMessage (a b : TypedMessage) : Prop := a.node = b.node ∧ List.Forall₂ SameField a.fields b.fields

theorem typedMessages_alike (hAgree : FieldsAgree s t) :
    Alike (List.Forall₂ SameMessage) s.typedMessages t.typedMessages := by
  have hMessages : s.declaredMessages = t.declaredMessages := by
    rw [← Scope.declaredMessages_silent s, hSilent, Scope.declaredMessages_silent]
  unfold Scope.typedMessages
  rw [← hMessages]
  refine Alike.mapM ?_
  intro message hMessage
  rw [typedMessage_eq, typedMessage_eq]
  refine Alike.map (fun _ _ hSame => ⟨rfl, hSame⟩)
    (typedFields_alike hSilent message.path 0 message.decl.fields ?_)
  intro k field hField hAlone
  rw [Nat.zero_add]
  exact hAgree message hMessage k field hField hAlone

end

/-! ### What is left without comments -/

def PlainField.bare (field : PlainField) : PlainField := { field with comment := none }

def Member.bare (member : Member) : Member := { member with comment := none }

def OneofField.bare (oneof : OneofField) : OneofField :=
  { oneof with comment := none, members := oneof.members.map Member.bare }

def Field.bare : Field → Field
  | .plain field => .plain field.bare
  | .oneof field => .oneof field.bare

def Assembly.bare (state : Assembly) : Assembly := { state with fields := state.fields.map Field.bare }

def Struct.bare (s : Struct) : Struct := { s with comment := none, fields := s.fields.map Field.bare }

def ModelFile.bare (model : ModelFile) : ModelFile :=
  { model with file := model.file.silent, structs := model.structs.map Struct.bare }

theorem isOneof_bare (index : Int) (field : Field) : field.bare.isOneof index = field.isOneof index := by
  cases field <;> rfl

theorem addMember_bare (index : Int) (member : Member) (field : Field) :
    (field.addMember index member).bare = field.bare.addMember index member.bare := by
  cases field with
  | plain field => rfl
  | oneof oneof =>
    by_cases hIndex : oneof.index = index
    · simp [Field.addMember, Field.bare, OneofField.bare, hIndex]
    · simp [Field.addMember, Field.bare, OneofField.bare, hIndex]

/-- One more field changes what is put together so far alike, whatever the comments. -/
theorem add_bare {f g : FileNode} (message : MessageNode) {a b : Assembly} {x y : TypedField}
    (hState : a.bare = b.bare) (hField : SameField x y) :
    (a.add f message x).bare = (b.add g message y).bare := by
  obtain ⟨aFields, aFieldNames, aTypeNames⟩ := a
  obtain ⟨bFields, bFieldNames, bTypeNames⟩ := b
  obtain ⟨hFields, rfl, rfl⟩ : aFields.map Field.bare = bFields.map Field.bare ∧
      aFieldNames = bFieldNames ∧ aTypeNames = bTypeNames := by
    simpa [Assembly.bare] using hState
  obtain ⟨decl, role, comment⟩ := x
  obtain ⟨decl', role', comment'⟩ := y
  obtain rfl : decl = decl' := hField.decl
  obtain rfl : role = role' := hField.role
  cases role with
  | plain shape =>
    have hOmits : omits comment = omits comment' := hField.omits shape rfl
    unfold omits at hOmits
    simp [Assembly.add, Assembly.bare, hFields, hOmits, Field.bare, PlainField.bare,
      TypedField.wireName]
  | member index element =>
    -- No comment has a say in which oneofs there are.
    have hAny : aFields.any (Field.isOneof index) = bFields.any (Field.isOneof index) := by
      have hBare : ∀ fields : List Field,
          (fields.map Field.bare).any (Field.isOneof index) = fields.any (Field.isOneof index) := by
        intro fields
        rw [List.any_map]
        congr 1
        funext field
        exact isOneof_bare index field
      rw [← hBare, hFields, hBare]
    have hAdded : ∀ (fields : List Field) (member : Member),
        (fields.map (Field.addMember index member)).map Field.bare
          = (fields.map Field.bare).map (Field.addMember index member.bare) := by
      intro fields member
      rw [List.map_map, List.map_map]
      exact List.map_congr_left fun field _ => addMember_bare index member field
    unfold Assembly.add
    dsimp only
    rw [hAny]
    split
    · simp only [Assembly.bare, hAdded, hFields]
      rfl
    · simp [Assembly.bare, hFields, Field.bare, OneofField.bare, Member.bare, TypedField.wireName]

theorem assemble_bare {f g : FileNode} (message : MessageNode) (typeNames : List String)
    {xs ys : List TypedField} (h : List.Forall₂ SameField xs ys) :
    (assemble f message typeNames xs).bare = (assemble g message typeNames ys).bare := by
  have hFold : ∀ a b : Assembly, a.bare = b.bare →
      (xs.foldl (Assembly.add f message) a).bare = (ys.foldl (Assembly.add g message) b).bare := by
    induction h with
    | nil => exact fun a b hState => hState
    | cons hHead _ ih => exact fun a b hState => ih _ _ (add_bare message hState hHead)
  exact hFold _ _ rfl

theorem structs_bare {f g : FileNode} {typeNames : List String} {xs ys : List TypedMessage}
    (h : List.Forall₂ SameMessage xs ys) :
    (Scope.structs f typeNames xs).map Struct.bare = (Scope.structs g typeNames ys).map Struct.bare := by
  induction h generalizing typeNames with
  | nil => rfl
  | @cons x y xs ys hHead _ ih =>
    obtain ⟨node, fields⟩ := x
    obtain ⟨node', fields'⟩ := y
    obtain ⟨hNode, hFields⟩ := hHead
    obtain rfl : node = node' := hNode
    have hBare := assemble_bare (f := f) (g := g) node typeNames hFields
    have hNames := congrArg Assembly.typeNames hBare
    have hStruct := congrArg Assembly.fields hBare
    simp only [Assembly.bare] at hNames hStruct
    simp only [Scope.structs, List.map_cons]
    rw [hNames, ih]
    simp [Struct.bare, hStruct]

theorem ofScope_alike {s t : Scope} (hSilent : s.silent = t.silent) (hAgree : FieldsAgree s t) :
    Alike (fun a b => a.bare = b.bare) (ModelFile.ofScope s) (ModelFile.ofScope t) := by
  have hFile : s.file.silent = t.file.silent := by
    rw [← Scope.file_silent, hSilent, Scope.file_silent]
  have hAliases : s.aliases = t.aliases := by
    rw [← Scope.aliases_silent, hSilent, Scope.aliases_silent]
  have hNames : s.declaredNames = t.declaredNames := by
    rw [← Scope.declaredNames_silent, hSilent, Scope.declaredNames_silent]
  have hMessages := typedMessages_alike hSilent hAgree
  unfold ModelFile.ofScope
  generalize s.typedMessages = x at hMessages ⊢
  generalize t.typedMessages = y at hMessages ⊢
  cases hMessages with
  | error e => exact .error e
  | @ok xs ys hSame =>
    refine .ok ?_
    have hEnums : s.file.silent.enums = t.file.silent.enums := congrArg FileNode.enums hFile
    change s.file.enums = t.file.enums at hEnums
    have hPackages : ModelFile.packages s.aliases xs = ModelFile.packages t.aliases ys := by
      unfold ModelFile.packages
      rw [hAliases]
      congr 1
      induction hSame with
      | nil => rfl
      | cons hHead _ ih =>
        have hRoles : ∀ {as bs : List TypedField}, List.Forall₂ SameField as bs →
            as.flatMap (fun field => field.role.packages) = bs.flatMap fun field => field.role.packages := by
          intro as bs hFields
          induction hFields with
          | nil => rfl
          | cons hField _ ihFields => rw [List.flatMap_cons, List.flatMap_cons, hField.role, ihFields]
        rw [List.flatMap_cons, List.flatMap_cons, hRoles hHead.2, ih]
    simp only [ModelFile.bare, hFile, hAliases, hEnums, hNames]
    rw [← hAliases, hPackages, structs_bare (g := t.file) hSame, hAliases]

/-! ### What is left of the lines -/

theorem stripped_plainField (names : LocalNames) (field : PlainField) :
    stripped (field.lines names) = stripped (field.bare.lines names) := by
  unfold PlainField.lines
  rw [stripped_append, stripped_append, stripped_documentation, stripped_documentation]
  rfl

theorem stripped_variant (names : LocalNames) (member : Member) :
    stripped (member.variantLines names) = stripped (member.bare.variantLines names) := by
  unfold Member.variantLines
  rw [stripped_append, stripped_append, stripped_documentation, stripped_documentation]
  rfl

theorem stripped_oneof (oneof : OneofField) : stripped oneof.lines = stripped oneof.bare.lines := by
  unfold OneofField.lines
  rw [stripped_append, stripped_append, stripped_documentation, stripped_documentation]
  rfl

theorem stripped_flatMap_bare {α : Type} {bare : α → α} {f : α → List Line}
    (h : ∀ item, stripped (f item) = stripped (f (bare item))) (items : List α) :
    stripped (items.flatMap f) = stripped ((items.map bare).flatMap f) := by
  rw [stripped_flatMap, stripped_flatMap, List.flatMap_map]
  congr 1
  funext item
  exact h item

theorem stripped_oneofEnum (names : LocalNames) (oneof : OneofField) :
    stripped (oneof.enumLines names) = stripped (oneof.bare.enumLines names) := by
  unfold OneofField.enumLines
  rw [code, List.cons_append, List.cons_append, stripped_code, stripped_code, stripped_append,
    stripped_append, stripped_block, stripped_block,
    stripped_flatMap_bare (stripped_variant names) oneof.members]
  rfl

theorem stripped_field (names : LocalNames) (field : Field) :
    stripped (field.lines names) = stripped (field.bare.lines names) := by
  cases field with
  | plain field => exact stripped_plainField names field
  | oneof field => exact stripped_oneof field

theorem stripped_fieldEnum (names : LocalNames) (field : Field) :
    stripped (field.enumLines names) = stripped (field.bare.enumLines names) := by
  cases field with
  | plain field => rfl
  | oneof field => exact stripped_oneofEnum names field

theorem getterLines_bare (names : LocalNames) (field : Field) :
    field.bare.getterLines names = field.getterLines names := by
  cases field with
  | plain field => rfl
  | oneof field =>
    change (field.members.map Member.bare).flatMap _ = field.members.flatMap _
    rw [List.flatMap_map]
    rfl

theorem any_bare {p : Field → Bool} (h : ∀ field, p field.bare = p field) (fields : List Field) :
    (fields.map Field.bare).any p = fields.any p := by
  rw [List.any_map]
  congr 1
  funext field
  exact h field

theorem hasGetters_bare (field : Field) : field.bare.hasGetters = field.hasGetters := by
  cases field <;> rfl

theorem omitsEmpty_bare (field : Field) : field.bare.omitsEmpty = field.omitsEmpty := by
  cases field <;> rfl

theorem stripped_declaration (names : LocalNames) (s : Struct) :
    stripped (s.declaration names) = stripped (s.bare.declaration names) := by
  unfold Struct.declaration
  rw [show s.bare.fields.isEmpty = s.fields.isEmpty from List.isEmpty_map]
  split
  · rfl
  · rw [stripped_block, stripped_block, stripped_flatMap_bare (stripped_field names)]
    rfl

theorem methods_bare (names : LocalNames) (s : Struct) : s.bare.methods names = s.methods names := by
  unfold Struct.methods
  rw [show s.bare.fields = s.fields.map Field.bare from rfl, any_bare hasGetters_bare, List.flatMap_map]
  simp only [getterLines_bare]
  rfl

theorem stripped_struct (names : LocalNames) (s : Struct) :
    stripped (s.lines names) = stripped (s.bare.lines names) := by
  unfold Struct.lines
  simp only [stripped_append, stripped_documentation, methods_bare, stripped_declaration names s]
  rw [stripped_flatMap_bare (stripped_fieldEnum names)]
  rfl

theorem stripped_constants (f g : FileNode) (e : EnumNode) (name : String) (i : Nat)
    (values : List (EnumValueDecl × String)) :
    stripped (EnumLines.constants f e name i values)
      = stripped (EnumLines.constants g e name i values) := by
  induction values generalizing i with
  | nil => rfl
  | cons value rest ih =>
    obtain ⟨value, constantName⟩ := value
    rw [EnumLines.constants, EnumLines.constants, stripped_append, stripped_append, ih,
      EnumLines.constant, EnumLines.constant, stripped_append, stripped_append,
      stripped_documentation, stripped_documentation]

theorem stripped_enum (f g : FileNode) (e : EnumNode) :
    stripped (enumLines f e) = stripped (enumLines g e) := by
  unfold enumLines
  simp only [stripped_append, stripped_documentation, stripped_constants f g]

theorem stripped_packageComment (comment : String) :
    stripped (.innerDoc "" :: (commentLines comment).map .innerDoc) = [] := by
  refine stripped_eq_nil ?_
  intro line hLine
  rcases List.mem_cons.mp hLine with rfl | hLine
  · rfl
  · obtain ⟨text, hText, rfl⟩ := List.mem_map.mp hLine
    simpa [isRemark] using newline_not_mem_commentLines hText

theorem stripped_header (file : FileNode) :
    stripped (header file) = stripped (header file.silent) := by
  have hSilent : file.silent.comment? SourcePath.package = none := rfl
  unfold header
  rw [hSilent]
  cases file.comment? SourcePath.package with
  | none => rfl
  | some comment =>
    dsimp only
    rw [stripped_append, stripped_append, stripped_packageComment, List.append_nil, List.append_nil,
      stripped_append]
    rfl

theorem fields_bare (model : ModelFile) : model.bare.fields = model.fields.map Field.bare := by
  change (model.structs.map Struct.bare).flatMap _ = (model.structs.flatMap _).map Field.bare
  rw [List.flatMap_map, List.map_flatMap]
  rfl

theorem uses_bare (params : Parameters) (model : ModelFile) :
    model.bare.uses params = model.uses params := by
  have hMaps : model.bare.usesMaps = model.usesMaps := by
    unfold ModelFile.usesMaps
    rw [fields_bare, any_bare]
    intro field
    cases field <;> rfl
  have hSerialization : model.bare.usesSerialization = model.usesSerialization := by
    unfold ModelFile.usesSerialization
    rw [show model.bare.structs.isEmpty = model.structs.isEmpty from List.isEmpty_map]
    rfl
  unfold ModelFile.uses
  rw [hMaps, hSerialization]
  rfl

theorem usesDefaultTest_bare (model : ModelFile) : model.bare.usesDefaultTest = model.usesDefaultTest := by
  rw [ModelFile.usesDefaultTest, fields_bare, any_bare omitsEmpty_bare]
  rfl

/-- The lines of a model that are no remarks depend only on what it declares besides its comments. -/
theorem stripped_modelLines {a b : ModelFile} (h : a.bare = b.bare) (params : Parameters) :
    stripped (a.lines params) = stripped (b.lines params) := by
  have hLines : ∀ model : ModelFile,
      stripped (model.lines params) = stripped (model.bare.lines params) := by
    intro model
    have hEnums : stripped (model.enums.flatMap (enumLines model.file))
        = stripped (model.enums.flatMap (enumLines model.file.silent)) := by
      rw [stripped_flatMap, stripped_flatMap]
      congr 1
      funext e
      exact stripped_enum _ _ e
    unfold ModelFile.lines ModelFile.body
    rw [uses_bare, usesDefaultTest_bare]
    simp only [stripped_append]
    rw [stripped_header, hEnums,
      stripped_flatMap_bare (stripped_struct model.names)]
    rfl
  rw [hLines, h, ← hLines]

end ProtoBind.Emit
