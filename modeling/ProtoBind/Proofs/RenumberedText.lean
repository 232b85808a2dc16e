import ProtoBind.Generation
import ProtoBind.Proofs.Renumbering

/-!
# Texts of renumbered files

No line that is emitted depends on the place that a file has in its request.
-/

set_option autoImplicit false

namespace ProtoBind.Emit

open Naming Text

/-! ### Types -/

section

variable (f : Symbol → Symbol)

theorem text_mapSymbol (names : LocalNames) (element : Element) :
    (element.mapSymbol f).text names = element.text names := by
  cases element <;> rfl

theorem packages_mapSymbol (element : Element) : (element.mapSymbol f).packages = element.packages := by
  cases element <;> rfl

theorem shapeText_mapSymbol (names : LocalNames) (shape : Shape) :
    (shape.mapSymbol f).text names = shape.text names := by
  cases shape with
  | boxed message => rfl
  | _ => simp only [Shape.mapSymbol, Shape.text, text_mapSymbol]

theorem isMap_mapSymbol (shape : Shape) : (shape.mapSymbol f).isMap = shape.isMap := by
  cases shape <;> rfl

theorem rolePackages_mapSymbol (role : Role) : (role.mapSymbol f).packages = role.packages := by
  cases role with
  | member oneof element => exact packages_mapSymbol f element
  | plain shape =>
    cases shape with
    | boxed message => rfl
    | _ => simp only [Role.mapSymbol, Role.packages, Shape.mapSymbol, Shape.packages, packages_mapSymbol]

theorem payloadText_mapSymbol (names : LocalNames) (payload : Payload) :
    (payload.mapSymbol f).text names = payload.text names := by
  cases payload <;> rfl

theorem payloadPackages_mapSymbol (payload : Payload) :
    (payload.mapSymbol f).packages = payload.packages := by
  cases payload <;> rfl

/-! ### Fields put together -/

def PlainField.mapSymbol (field : PlainField) : PlainField := { field with shape := field.shape.mapSymbol f }

def Member.mapSymbol (member : Member) : Member := { member with element := member.element.mapSymbol f }

def OneofField.mapSymbol (oneof : OneofField) : OneofField :=
  { oneof with members := oneof.members.map (Member.mapSymbol f) }

def Field.mapSymbol : Field → Field
  | .plain field => .plain (field.mapSymbol f)
  | .oneof field => .oneof (field.mapSymbol f)

def Assembly.mapSymbol (state : Assembly) : Assembly :=
  { state with fields := state.fields.map (Field.mapSymbol f) }

def Struct.mapSymbol (s : Struct) : Struct := { s with fields := s.fields.map (Field.mapSymbol f) }

theorem isOneof_mapSymbol (index : Int) (field : Field) :
    (field.mapSymbol f).isOneof index = field.isOneof index := by
  cases field <;> rfl

theorem addMember_mapSymbol (index : Int) (member : Member) (field : Field) :
    (field.mapSymbol f).addMember index (member.mapSymbol f)
      = (field.addMember index member).mapSymbol f := by
  cases field with
  | plain field => rfl
  | oneof oneof =>
    by_cases hIndex : oneof.index = index <;>
      simp [Field.addMember, Field.mapSymbol, OneofField.mapSymbol, hIndex]

theorem add_mapSymbol {file other : FileNode} (hComment : other.comment? = file.comment?)
    (message : MessageNode) (state : Assembly) (field : TypedField) :
    (state.mapSymbol f).add other message (field.mapSymbol f)
      = (state.add file message field).mapSymbol f := by
  obtain ⟨decl, role, comment⟩ := field
  cases role with
  | plain shape => simp [Assembly.add, Assembly.mapSymbol, TypedField.mapSymbol, Role.mapSymbol,
      Field.mapSymbol, PlainField.mapSymbol, TypedField.wireName]
  | member index element =>
    have hAny : (state.fields.map (Field.mapSymbol f)).any (Field.isOneof index)
        = state.fields.any (Field.isOneof index) := by
      rw [List.any_map]
      congr 1
      funext field
      exact isOneof_mapSymbol f index field
    have hAdded : ∀ member : Member,
        (state.fields.map (Field.mapSymbol f)).map (Field.addMember index (member.mapSymbol f))
          = (state.fields.map (Field.addMember index member)).map (Field.mapSymbol f) := by
      intro member
      rw [List.map_map, List.map_map]
      exact List.map_congr_left fun field _ => addMember_mapSymbol f index member field
    have hOneof : oneofComment? other message index = oneofComment? file message index := by
      rw [oneofComment?, hComment, oneofComment?]
    unfold Assembly.add
    simp only [TypedField.mapSymbol, Role.mapSymbol, Assembly.mapSymbol, hAny, hOneof]
    split
    · exact congrArg (fun fields => Assembly.mk fields _ _) (hAdded ⟨_, _, element, _, _, _⟩)
    · simp [Field.mapSymbol, OneofField.mapSymbol, Member.mapSymbol, TypedField.wireName]

theorem assemble_mapSymbol {file other : FileNode} (hComment : other.comment? = file.comment?)
    (message : MessageNode) (typeNames : List String) (fields : List TypedField) :
    assemble other message typeNames (fields.map (TypedField.mapSymbol f))
      = (assemble file message typeNames fields).mapSymbol f := by
  have hFold : ∀ state : Assembly,
      (fields.map (TypedField.mapSymbol f)).foldl (Assembly.add other message) (state.mapSymbol f)
        = (fields.foldl (Assembly.add file message) state).mapSymbol f := by
    induction fields with
    | nil => exact fun state => rfl
    | cons field rest ih =>
      intro state
      rw [List.map_cons, List.foldl_cons, add_mapSymbol f hComment, ih, List.foldl_cons]
  exact hFold { typeNames }

theorem structs_mapSymbol {file other : FileNode} (hComment : other.comment? = file.comment?)
    (typeNames : List String) (messages : List TypedMessage) :
    Scope.structs other typeNames (messages.map (TypedMessage.mapSymbol f))
      = (Scope.structs file typeNames messages).map (Struct.mapSymbol f) := by
  induction messages generalizing typeNames with
  | nil => rfl
  | cons message rest ih =>
    have hAssembly : assemble other message.node typeNames
        (message.fields.map (TypedField.mapSymbol f)) = _ :=
      assemble_mapSymbol f hComment message.node typeNames message.fields
    rw [List.map_cons, Scope.structs, Scope.structs, List.map_cons]
    simp only [TypedMessage.mapSymbol, hAssembly, hComment, Assembly.mapSymbol, ih]
    rfl

/-! ### Lines -/

theorem fieldLines_mapSymbol (names : LocalNames) (field : Field) :
    (field.mapSymbol f).lines names = field.lines names := by
  cases field with
  | oneof oneof => rfl
  | plain field =>
    change PlainField.lines names _ = PlainField.lines names _
    unfold PlainField.lines
    simp only [PlainField.mapSymbol, shapeText_mapSymbol]
    rfl

theorem variantLines_mapSymbol (names : LocalNames) (member : Member) :
    (member.mapSymbol f).variantLines names = member.variantLines names := by
  have hPayload : (member.mapSymbol f).payload names = member.payload names := by
    unfold Member.payload
    simp only [Member.mapSymbol]
    cases member.element <;> rfl
  unfold Member.variantLines
  rw [hPayload]
  rfl

theorem enumLines_mapSymbol (names : LocalNames) (field : Field) :
    (field.mapSymbol f).enumLines names = field.enumLines names := by
  cases field with
  | plain field => rfl
  | oneof oneof =>
    change OneofField.enumLines names _ = OneofField.enumLines names _
    unfold OneofField.enumLines
    simp only [OneofField.mapSymbol, List.flatMap_map, variantLines_mapSymbol]

theorem getterLines_mapSymbol (names : LocalNames) (field : Field) :
    (field.mapSymbol f).getterLines names = field.getterLines names := by
  cases field with
  | plain field => rfl
  | oneof oneof =>
    change (oneof.members.map (Member.mapSymbol f)).flatMap _ = oneof.members.flatMap _
    rw [List.flatMap_map]
    congr 1
    funext member
    unfold Member.getterLines
    simp only [Member.mapSymbol, text_mapSymbol]
    rfl

theorem any_mapSymbol {p : Field → Bool} (h : ∀ field, p (field.mapSymbol f) = p field)
    (fields : List Field) : (fields.map (Field.mapSymbol f)).any p = fields.any p := by
  rw [List.any_map]
  congr 1
  funext field
  exact h field

theorem structLines_mapSymbol (names : LocalNames) (s : Struct) :
    (s.mapSymbol f).lines names = s.lines names := by
  have hGetters : (s.fields.map (Field.mapSymbol f)).any Field.hasGetters = s.fields.any Field.hasGetters :=
    any_mapSymbol f (fun field => by cases field <;> rfl) s.fields
  unfold Struct.lines Struct.declaration Struct.methods
  simp only [Struct.mapSymbol, List.isEmpty_map, List.flatMap_map, fieldLines_mapSymbol,
    enumLines_mapSymbol, getterLines_mapSymbol, hGetters]
  rfl

theorem endpointPackages_mapSymbol (e : Endpoint) : (e.mapSymbol f).packages = e.packages := by
  rw [Endpoint.packages, Endpoint.packages]
  simp only [Endpoint.mapSymbol, payloadPackages_mapSymbol]

theorem handlerLines_mapSymbol (names : LocalNames) (e : Endpoint) :
    (e.mapSymbol f).handlerLines names = e.handlerLines names := by
  unfold Endpoint.handlerLines
  simp only [Endpoint.mapSymbol, payloadText_mapSymbol]

theorem routeLines_mapSymbol (names : LocalNames) (errorCode : Int) (e : Endpoint) :
    (e.mapSymbol f).routeLines names errorCode = e.routeLines names errorCode := by
  have hDispatch : (e.mapSymbol f).dispatchLines names errorCode = e.dispatchLines names errorCode := by
    unfold Endpoint.dispatchLines
    simp only [Endpoint.mapSymbol, payloadText_mapSymbol]
    rfl
  unfold Endpoint.routeLines
  rw [hDispatch]
  rfl

theorem serviceLines_mapSymbol (names : LocalNames) (errorCode : Int) (s : Service) :
    (s.mapSymbol f).traitLines names ++ (s.mapSymbol f).registerLines names errorCode
      = s.traitLines names ++ s.registerLines names errorCode := by
  unfold Service.traitLines Service.registerLines
  simp only [Service.mapSymbol, List.isEmpty_map, List.flatMap_map, handlerLines_mapSymbol,
    routeLines_mapSymbol]
  rfl

end

/-! ### Emitted files -/

/-- A model with other symbols, for the schema file at another place. -/
structure ModelFile.Moved (f : Symbol → Symbol) (a b : ModelFile) : Prop where
  decl : b.file.decl = a.file.decl
  names : b.names = a.names
  aliases : b.aliases = a.aliases
  enums : b.enums = a.enums
  structs : b.structs = a.structs.map (Struct.mapSymbol f)

structure ApiFile.Moved (f : Symbol → Symbol) (a b : ApiFile) : Prop where
  decl : b.file.decl = a.file.decl
  names : b.names = a.names
  services : b.services = a.services.map (Service.mapSymbol f)

theorem comment?_congr {a b : FileNode} (h : b.decl = a.decl) : b.comment? = a.comment? := by
  funext path
  rw [FileNode.comment?, FileNode.commentAt?, h, FileNode.comment?, FileNode.commentAt?]

theorem header_congr {a b : FileNode} (h : b.decl = a.decl) : header b = header a := by
  rw [header, comment?_congr h, h, header]

theorem enumLines_congr {a b : FileNode} (h : b.decl = a.decl) : enumLines b = enumLines a := by
  have hComment := comment?_congr h
  have hConstants : ∀ (e : EnumNode) (name : String) (i : Nat) (values : List (EnumValueDecl × String)),
      EnumLines.constants b e name i values = EnumLines.constants a e name i values := by
    intro e name i values
    induction values generalizing i with
    | nil => rfl
    | cons value rest ih =>
      obtain ⟨value, constantName⟩ := value
      rw [EnumLines.constants, EnumLines.constants, ih, EnumLines.constant, EnumLines.constant, hComment]
  funext e
  unfold enumLines
  simp only [hComment, hConstants]

theorem ModelFile.Moved.lines {f : Symbol → Symbol} {a b : ModelFile} (h : ModelFile.Moved f a b)
    (params : Parameters) : b.lines params = a.lines params := by
  have hFields : b.fields = a.fields.map (Field.mapSymbol f) := by
    rw [ModelFile.fields, h.structs, ModelFile.fields, List.flatMap_map, List.map_flatMap]
    rfl
  have hMaps : b.usesMaps = a.usesMaps := by
    rw [ModelFile.usesMaps, hFields, any_mapSymbol, ModelFile.usesMaps]
    intro field
    cases field with
    | plain field => exact isMap_mapSymbol f field.shape
    | oneof oneof => rfl
  have hDefault : b.usesDefaultTest = a.usesDefaultTest := by
    rw [ModelFile.usesDefaultTest, hFields, any_mapSymbol f, ModelFile.usesDefaultTest]
    exact fun field => by cases field <;> rfl
  have hSerialization : b.usesSerialization = a.usesSerialization := by
    rw [ModelFile.usesSerialization, h.enums, h.structs, List.isEmpty_map, ModelFile.usesSerialization]
  have hStructs : b.structs.flatMap (Struct.lines b.names) = a.structs.flatMap (Struct.lines a.names) := by
    rw [h.structs, h.names, List.flatMap_map]
    congr 1
    funext s
    exact structLines_mapSymbol f a.names s
  unfold ModelFile.lines ModelFile.body ModelFile.uses ModelFile.aliasLines
  rw [header_congr h.decl, enumLines_congr h.decl, hMaps, hDefault, hSerialization, hStructs, h.names,
    h.aliases, h.enums]

theorem ApiFile.Moved.lines {f : Symbol → Symbol} {a b : ApiFile} (h : ApiFile.Moved f a b)
    (config : Config) : b.lines config = a.lines config := by
  have hEndpoints : b.endpoints = a.endpoints.map (Endpoint.mapSymbol f) := by
    rw [ApiFile.endpoints, h.services, ApiFile.endpoints, List.flatMap_map, List.map_flatMap]
    rfl
  have hBinding : (a.endpoints.map (Endpoint.mapSymbol f)).any Endpoint.usesBinding
      = a.endpoints.any Endpoint.usesBinding := by
    rw [List.any_map]
    rfl
  unfold ApiFile.lines ApiFile.uses
  rw [header_congr h.decl, hEndpoints, hBinding, h.services, h.names, List.isEmpty_map, List.isEmpty_map,
    List.flatMap_map]
  simp only [serviceLines_mapSymbol]

theorem ApiFile.Moved.serviceNames {f : Symbol → Symbol} {a b : ApiFile} (h : ApiFile.Moved f a b) :
    b.services.map (·.name) = a.services.map (·.name) := by
  rw [h.services, List.map_map]
  rfl

namespace Scope.Moved

variable {ρ : Nat → Nat} {s t : Scope} (h : Scope.Moved ρ s t)
include h

theorem model : Alike (ModelFile.Moved (Symbol.renumber ρ)) (ModelFile.ofScope s) (ModelFile.ofScope t) := by
  unfold ModelFile.ofScope
  have hMessages := h.typedMessages
  generalize s.typedMessages = a at hMessages ⊢
  generalize t.typedMessages = b at hMessages ⊢
  cases hMessages with
  | error e => exact .error e
  | @ok messages _ hSame =>
    subst hSame
    have hPackages : ModelFile.packages t.aliases (messages.map (TypedMessage.mapSymbol (Symbol.renumber ρ)))
        = ModelFile.packages s.aliases messages := by
      rw [ModelFile.packages, h.aliases, ModelFile.packages, List.flatMap_map]
      simp only [TypedMessage.mapSymbol, List.flatMap_map]
      simp only [TypedField.mapSymbol, rolePackages_mapSymbol]
    refine .ok ⟨h.file.decl, congrArg LocalNames.ofPaths hPackages, h.aliases, h.file.enums, ?_⟩
    change Scope.structs t.file t.declaredNames _ = _
    rw [h.declaredNames]
    exact structs_mapSymbol _ (comment?_congr h.file.decl) s.declaredNames messages

theorem api (rules : Http.Rules) :
    Alike (ApiFile.Moved (Symbol.renumber ρ)) (ApiFile.ofScope s rules) (ApiFile.ofScope t rules) := by
  unfold ApiFile.ofScope
  have hServices := h.services rules 0 s.file.decl.services
  rw [h.file.decl]
  generalize s.services rules 0 s.file.decl.services = a at hServices ⊢
  generalize t.services rules 0 s.file.decl.services = b at hServices ⊢
  cases hServices with
  | error e => exact .error e
  | @ok services _ hSame =>
    subst hSame
    have hPackages : ApiFile.packages (services.map (Service.mapSymbol (Symbol.renumber ρ)))
        = ApiFile.packages services := by
      rw [ApiFile.packages, ApiFile.packages, List.flatMap_map]
      simp only [Service.mapSymbol, List.flatMap_map, endpointPackages_mapSymbol]
    exact .ok ⟨h.file.decl, congrArg LocalNames.ofPaths hPackages, rfl⟩

end Scope.Moved

end ProtoBind.Emit

namespace ProtoBind

open Emit

structure Project.Moved (ρ : Nat → Nat) (a b : Project) : Prop where
  graph : a.graph.Moved ρ b.graph
  index : ∀ name, Alike (fun x y => y = x.renumber ρ) (a.index.get name) (b.index.get name)
  rules : b.rules = a.rules
  config : b.config = a.config

namespace Project.Moved

variable {ρ : Nat → Nat} {a b : Project} (h : Project.Moved ρ a b)
include h

theorem scope (place : Nat) (pass : Pass) : (a.scope place pass).Moved ρ (b.scope (ρ place) pass) :=
  ⟨h.graph, h.index, rfl, rfl⟩

theorem outputName (place : Nat) (pass : Pass) :
    b.outputName (ρ place) pass = a.outputName place pass := by
  have hFile := (h.scope place pass).file
  unfold Project.outputName FileNode.outputName FileNode.outputDirectory
  rw [h.config, hFile.decl, hFile.packageName]

theorem model (place : Nat) :
    Alike (ModelFile.Moved (Symbol.renumber ρ)) (a.model place) (b.model (ρ place)) :=
  (h.scope place .model).model

theorem api (place : Nat) :
    Alike (ApiFile.Moved (Symbol.renumber ρ)) (a.api place) (b.api (ρ place)) := by
  have hApi := (h.scope place .api).api a.rules
  rw [Project.api, Project.api, h.rules]
  exact hApi

theorem modelText {m n : ModelFile} (hSame : ModelFile.Moved (Symbol.renumber ρ) m n) :
    b.modelText n = a.modelText m := by
  rw [Project.modelText, Project.modelText, h.config, hSame.lines]

theorem apiText {m n : ApiFile} (hSame : ApiFile.Moved (Symbol.renumber ρ) m n) :
    b.apiText n = a.apiText m := by
  rw [Project.apiText, Project.apiText, h.config, hSame.lines]

/-- The same is emitted for a file wherever it stands. -/
theorem draft (place : Nat) : Alike Eq (a.draft place) (b.draft (ρ place)) := by
  unfold Project.draft
  refine Alike.bind (h.model place) ?_
  intro m n hModel
  refine Alike.bind (h.api place) ?_
  intro x y hApi
  rw [h.outputName, h.outputName, h.modelText hModel, h.apiText hApi, hApi.serviceNames]
  exact .ok rfl

theorem generation (place : Nat) : Alike Eq (a.generation place) (b.generation (ρ place)) := by
  unfold Project.generation
  refine Alike.bind (h.model place) ?_
  intro m n hModel
  rw [h.outputName, h.outputName, h.modelText hModel]
  refine Alike.bind (Alike.of_eq rfl) ?_
  rintro modelFile _ rfl
  refine Alike.bind (h.api place) ?_
  intro x y hApi
  rw [h.apiText hApi, hApi.serviceNames]
  exact Alike.of_eq rfl

end Project.Moved

end ProtoBind
