import Mathlib.Data.Option.Basic
import Mathlib.Logic.Function.Basic
import ProtoBind.Project
import ProtoBind.Proofs.TwoRuns

/-!
# Renumbering the files of a request

Two graphs that hold the same files at other places. Everything that emission looks up in one of them it
finds in the other, with the places renumbered, so what is declared differs in nothing but places.
-/

set_option autoImplicit false

namespace ProtoBind

variable {ρ : Nat → Nat}

def Symbol.renumber (ρ : Nat → Nat) : Symbol → Symbol
  | .message file index => .message (ρ file) index
  | .enum file index => .enum (ρ file) index
  | .extension file index => .extension (ρ file) index
  | .imported file target => .imported (ρ file) (target.renumber ρ)

@[simp] theorem Symbol.file_renumber (s : Symbol) : (s.renumber ρ).file = ρ s.file := by
  cases s <;> rfl

/-- One file in two graphs, at whatever places. Code may be asked for it in one of them only. -/
structure FileNode.Moved (ρ : Nat → Nat) (a b : FileNode) : Prop where
  decl : b.decl = a.decl
  messages : b.messages = a.messages
  enums : b.enums = a.enums
  imported : b.imported = a.imported.map (Symbol.renumber ρ)
  importPath : b.importPath = a.importPath
  packageName : b.packageName = a.packageName

structure Graph.Moved (ρ : Nat → Nat) (g k : Graph) : Prop where
  injective : Function.Injective ρ
  file : ∀ place, Option.Rel (FileNode.Moved ρ) (g.file? place) (k.file? (ρ place))

namespace Graph.Moved

variable {g k : Graph} (h : Graph.Moved ρ g k)
include h

theorem message? (file index : Nat) : k.message? (ρ file) index = g.message? file index := by
  unfold Graph.message?
  have hFile := h.file file
  generalize g.file? file = a at hFile ⊢
  generalize k.file? (ρ file) = b at hFile ⊢
  cases hFile with
  | none => rfl
  | some hSame => exact congrArg (·[index]?) hSame.messages

theorem enum? (file index : Nat) : k.enum? (ρ file) index = g.enum? file index := by
  unfold Graph.enum?
  have hFile := h.file file
  generalize g.file? file = a at hFile ⊢
  generalize k.file? (ρ file) = b at hFile ⊢
  cases hFile with
  | none => rfl
  | some hSame => exact congrArg (·[index]?) hSame.enums

theorem extension? (file index : Nat) : k.extension? (ρ file) index = g.extension? file index := by
  unfold Graph.extension?
  have hFile := h.file file
  generalize g.file? file = a at hFile ⊢
  generalize k.file? (ρ file) = b at hFile ⊢
  cases hFile with
  | none => rfl
  | some hSame => exact congrArg (·.extensions[index]?) hSame.decl

theorem importPathOf (file : Nat) : k.importPathOf (ρ file) = g.importPathOf file := by
  unfold Graph.importPathOf
  have hFile := h.file file
  generalize g.file? file = a at hFile ⊢
  generalize k.file? (ρ file) = b at hFile ⊢
  cases hFile with
  | none => rfl
  | some hSame => exact hSame.importPath

theorem packageOf (file : Nat) : k.packageOf (ρ file) = g.packageOf file := by
  unfold Graph.packageOf
  have hFile := h.file file
  generalize g.file? file = a at hFile ⊢
  generalize k.file? (ρ file) = b at hFile ⊢
  cases hFile with
  | none => rfl
  | some hSame => exact congrArg FileDecl.package hSame.decl

theorem typeName (s : Symbol) : k.typeName (s.renumber ρ) = g.typeName s := by
  induction s with
  | message file index => rw [Symbol.renumber, Graph.typeName, h.message?, Graph.typeName]
  | enum file index => rw [Symbol.renumber, Graph.typeName, h.enum?, Graph.typeName]
  | extension file index => rw [Symbol.renumber, Graph.typeName, h.extension?, Graph.typeName]
  | imported file target ih => rw [Symbol.renumber, Graph.typeName, ih, Graph.typeName]

theorem fullName (s : Symbol) : k.fullName (s.renumber ρ) = g.fullName s := by
  rw [Graph.fullName, Symbol.file_renumber, h.packageOf, h.typeName, Graph.fullName]

theorem exportedNames (s : Symbol) : k.exportedNames (s.renumber ρ) = g.exportedNames s := by
  induction s with
  | message file index => rw [Symbol.renumber, Graph.exportedNames, h.message?, Graph.exportedNames]
  | enum file index => rw [Symbol.renumber, Graph.exportedNames, h.enum?, Graph.exportedNames]
  | extension file index => rfl
  | imported file target ih => rw [Symbol.renumber, Graph.exportedNames, ih, Graph.exportedNames]

end Graph.Moved

namespace Emit

/-! ### What is declared, with other symbols -/

section

variable (f : Symbol → Symbol)

def Reference.mapSymbol (r : Reference) : Reference := { r with symbol := f r.symbol }

def Element.mapSymbol : Element → Element
  | .enum type => .enum (type.mapSymbol f)
  | .message type => .message (type.mapSymbol f)
  | .scalar type => .scalar type
  | .freeForm form => .freeForm form

def Shape.mapSymbol : Shape → Shape
  | .one element => .one (element.mapSymbol f)
  | .optional element => .optional (element.mapSymbol f)
  | .boxed message => .boxed (message.mapSymbol f)
  | .many element => .many (element.mapSymbol f)
  | .map key value => .map (key.mapSymbol f) (value.mapSymbol f)

def Role.mapSymbol : Role → Role
  | .plain shape => .plain (shape.mapSymbol f)
  | .member oneof element => .member oneof (element.mapSymbol f)

def TypedField.mapSymbol (field : TypedField) : TypedField := { field with role := field.role.mapSymbol f }

def TypedMessage.mapSymbol (message : TypedMessage) : TypedMessage :=
  { message with fields := message.fields.map (TypedField.mapSymbol f) }

def Payload.mapSymbol : Payload → Payload
  | .empty => .empty
  | .named reference => .named (reference.mapSymbol f)

def Endpoint.mapSymbol (e : Endpoint) : Endpoint :=
  { e with input := e.input.mapSymbol f, output := e.output.mapSymbol f }

def Service.mapSymbol (s : Service) : Service :=
  { s with endpoints := s.endpoints.map (Endpoint.mapSymbol f) }

end

/-! ### Scopes -/

structure Scope.Moved (ρ : Nat → Nat) (s t : Scope) : Prop where
  graph : s.graph.Moved ρ t.graph
  index : ∀ name, Alike (fun a b => b = a.renumber ρ) (s.index.get name) (t.index.get name)
  place : t.place = ρ s.place
  pass : t.pass = s.pass

namespace Scope.Moved

variable {s t : Scope} (h : Scope.Moved ρ s t)
include h

theorem file : FileNode.Moved ρ s.file t.file := by
  unfold Scope.file
  have hFile := h.graph.file s.place
  rw [← h.place] at hFile
  generalize s.graph.file? s.place = a at hFile ⊢
  generalize t.graph.file? t.place = b at hFile ⊢
  cases hFile with
  | none => constructor <;> rfl
  | some hSame => exact hSame

theorem homeOf (place : Nat) : t.homeOf (ρ place) = s.homeOf place := by
  unfold Scope.homeOf
  simp only [h.place, h.pass, h.graph.injective.eq_iff, h.graph.importPathOf, h.file.importPath]

theorem referTo (symbol : Symbol) :
    t.referTo (symbol.renumber ρ) = (s.referTo symbol).mapSymbol (Symbol.renumber ρ) := by
  unfold Scope.referTo
  rw [Symbol.file_renumber, h.homeOf, h.graph.typeName]
  rfl

theorem resolve (typeName : String) :
    Alike (fun a b => b = a.mapSymbol (Symbol.renumber ρ)) (s.resolve typeName) (t.resolve typeName) := by
  unfold Scope.resolve
  have hIndex := h.index typeName
  generalize s.index.get typeName = a at hIndex ⊢
  generalize t.index.get typeName = b at hIndex ⊢
  cases hIndex with
  | error e => exact .error e
  | ok hSymbol =>
    subst hSymbol
    exact .ok (h.referTo _)

theorem element (field : FieldDecl) :
    Alike (fun a b => b = a.mapSymbol (Symbol.renumber ρ)) (s.element field) (t.element field) := by
  unfold Scope.element
  have hResolve := h.resolve field.typeName
  cases field.type with
  | enum =>
    refine Alike.map ?_ hResolve
    rintro a b rfl
    rfl
  | message | group =>
    dsimp only
    cases FreeForm.ofTypeName? field.typeName with
    | some form => exact .ok rfl
    | none =>
      refine Alike.map ?_ hResolve
      rintro a b rfl
      rfl
  | _ => exact .ok rfl

theorem mapEntry? (field : FieldDecl) : t.mapEntry? field = s.mapEntry? field := by
  unfold Scope.mapEntry?
  have hIndex := h.index field.typeName
  generalize s.index.get field.typeName = a at hIndex ⊢
  generalize t.index.get field.typeName = b at hIndex ⊢
  cases hIndex with
  | error e => rfl
  | @ok symbol _ hSymbol =>
    subst hSymbol
    cases symbol with
    | message file index => simp only [Symbol.renumber, h.graph.message?]
    | _ => rfl

theorem single (field : FieldDecl) (element : Element) :
    t.single field (element.mapSymbol (Symbol.renumber ρ))
      = (s.single field element).mapSymbol (Symbol.renumber ρ) := by
  have hProto : t.file.decl.isProto3 = s.file.decl.isProto3 := by rw [h.file.decl]
  unfold Scope.single
  rw [hProto]
  cases element with
  | message message => rfl
  | freeForm form => rfl
  | enum type =>
    dsimp only [Element.mapSymbol]
    split <;> rfl
  | scalar type =>
    cases type with
    | bytes => rfl
    | _ =>
      dsimp only [Element.mapSymbol]
      split <;> rfl

theorem shape (field : FieldDecl) :
    Alike (fun a b => b = a.mapSymbol (Symbol.renumber ρ)) (s.shape field) (t.shape field) := by
  unfold Scope.shape
  refine Alike.bind (Alike.of_eq (h.mapEntry? field).symm) ?_
  rintro entry _ rfl
  cases entry with
  | some entry =>
    refine Alike.bind (h.element entry.1) ?_
    rintro key _ rfl
    refine Alike.bind (h.element entry.2) ?_
    rintro value _ rfl
    exact .ok rfl
  | none =>
    refine Alike.bind (h.element field) ?_
    rintro element _ rfl
    split
    · exact .ok rfl
    · exact .ok (h.single field element)

theorem role (field : FieldDecl) :
    Alike (fun a b => b = a.mapSymbol (Symbol.renumber ρ)) (s.role field) (t.role field) := by
  unfold Scope.role
  split
  · refine Alike.map ?_ (h.element field)
    rintro element _ rfl
    rfl
  · refine Alike.map ?_ (h.shape field)
    rintro shape _ rfl
    rfl

theorem comment? (path : SourcePath) : t.file.comment? path = s.file.comment? path := by
  rw [FileNode.comment?, FileNode.commentAt?, h.file.decl, FileNode.comment?, FileNode.commentAt?]

theorem typedFields (path : SourcePath) (i : Nat) (fields : List FieldDecl) :
    Alike (fun a b => b = a.map (TypedField.mapSymbol (Symbol.renumber ρ)))
      (s.typedFields path i fields) (t.typedFields path i fields) := by
  induction fields generalizing i with
  | nil => exact .ok rfl
  | cons field rest ih =>
    rw [Scope.typedFields, Scope.typedFields, h.comment?]
    refine Alike.bind (h.role field) ?_
    rintro role _ rfl
    refine Alike.bind (ih (i + 1)) ?_
    rintro others _ rfl
    exact .ok rfl

theorem typedMessage (message : MessageNode) :
    Alike (fun a b => b = a.mapSymbol (Symbol.renumber ρ)) (s.typedMessage message)
      (t.typedMessage message) := by
  unfold Scope.typedMessage
  have hFields := h.typedFields message.path 0 message.decl.fields
  generalize s.typedFields message.path 0 message.decl.fields = a at hFields ⊢
  generalize t.typedFields message.path 0 message.decl.fields = b at hFields ⊢
  cases hFields with
  | error e => exact .error e
  | ok hSame =>
    subst hSame
    exact .ok rfl

theorem typedMessages :
    Alike (fun a b => b = a.map (TypedMessage.mapSymbol (Symbol.renumber ρ))) s.typedMessages
      t.typedMessages := by
  have hDeclared : t.declaredMessages = s.declaredMessages := by
    rw [Scope.declaredMessages, h.file.messages, Scope.declaredMessages]
  unfold Scope.typedMessages
  rw [hDeclared]
  refine Alike.imp ?_ (Alike.mapM fun message _ => h.typedMessage message)
  intro as bs hSame
  induction hSame with
  | nil => rfl
  | cons hHead _ ih => rw [hHead, ih, List.map_cons]

theorem declaredNames : t.declaredNames = s.declaredNames := by
  rw [Scope.declaredNames, h.file.messages, h.file.enums, Scope.declaredNames]

theorem aliases : t.aliases = s.aliases := by
  unfold Scope.aliases
  rw [h.file.imported, List.filterMap_map, h.file.importPath]
  congr 1
  funext symbol
  simp only [Function.comp_apply, Symbol.file_renumber, h.graph.importPathOf, h.graph.exportedNames]

theorem payload (typeName : String) :
    Alike (fun a b => b = (a.1.mapSymbol (Symbol.renumber ρ), a.2)) (s.payload typeName)
      (t.payload typeName) := by
  unfold Scope.payload
  split
  · exact .ok rfl
  · have hIndex := h.index typeName
    generalize s.index.get typeName = a at hIndex ⊢
    generalize t.index.get typeName = b at hIndex ⊢
    cases hIndex with
    | error e => exact .error e
    | @ok symbol _ hSymbol =>
      subst hSymbol
      have hRefer := h.referTo symbol
      cases symbol with
      | message file index =>
        refine .ok ?_
        rw [Symbol.renumber] at hRefer
        rw [h.graph.message?, hRefer]
        rfl
      | _ =>
        refine .ok ?_
        rw [hRefer]
        rfl

theorem routeOf (rules : Http.Rules) (service : ServiceDecl) (method : MethodDecl) :
    t.routeOf rules service method = s.routeOf rules service method := by
  rw [Scope.routeOf, h.file.decl, Scope.routeOf]

theorem endpoint (rules : Http.Rules) (service : ServiceDecl) (path : SourcePath) (used : List String)
    (method : MethodDecl) :
    Alike (fun a b => b = a.mapSymbol (Symbol.renumber ρ)) (s.endpoint rules service path used method)
      (t.endpoint rules service path used method) := by
  unfold Scope.endpoint
  rw [h.comment?]
  refine Alike.bind (Alike.of_eq (h.routeOf rules service method).symm) ?_
  rintro found _ rfl
  refine Alike.bind (h.payload method.inputType) ?_
  rintro input _ rfl
  refine Alike.bind (h.payload method.outputType) ?_
  rintro output _ rfl
  exact .ok rfl

theorem endpoints (rules : Http.Rules) (service : ServiceDecl) (path : SourcePath) (i : Nat)
    (used : List String) (methods : List MethodDecl) :
    Alike (fun a b => b = a.map (Endpoint.mapSymbol (Symbol.renumber ρ)))
      (s.endpoints rules service path i used methods) (t.endpoints rules service path i used methods) := by
  induction methods generalizing i used with
  | nil => exact .ok rfl
  | cons method rest ih =>
    rw [Scope.endpoints, Scope.endpoints]
    refine Alike.bind (h.endpoint rules service (path.method i) used method) ?_
    rintro endpoint _ rfl
    refine Alike.bind (ih (i + 1) (endpoint.name :: used)) ?_
    rintro others _ rfl
    exact .ok rfl

theorem services (rules : Http.Rules) (i : Nat) (services : List ServiceDecl) :
    Alike (fun a b => b = a.map (Service.mapSymbol (Symbol.renumber ρ))) (s.services rules i services)
      (t.services rules i services) := by
  induction services generalizing i with
  | nil => exact .ok rfl
  | cons service rest ih =>
    rw [Scope.services, Scope.services, h.comment?]
    refine Alike.bind (h.endpoints rules service (SourcePath.service i) 0 [] service.methods) ?_
    rintro endpoints _ rfl
    refine Alike.bind (ih (i + 1)) ?_
    rintro others _ rfl
    exact .ok rfl

end Scope.Moved

end Emit

end ProtoBind
