import ProtoBind.Proofs.AcceptedMethods
import ProtoBind.Proofs.ApiSentences
import ProtoBind.Proofs.CommentedFiles
import ProtoBind.Proofs.ModelSentences
import ProtoBind.Proofs.NamedSchemas
import ProtoBind.Proofs.NoDangling

/-!
# Accepted texts

The elements of a schema have names as schemas allow them. Then what is emitted for it is accepted: models and APIs
are sentences of the grammar, unless a comment, a package or a method brings in what cannot be written.
-/

set_option autoImplicit false

namespace ProtoBind

open Naming Text Source

namespace Emit

/-! ### Fields -/

section

variable {names : LocalNames}

theorem Element.named_of_references {element : Element} (h : ∀ r ∈ element.references, r.Named names) :
    element.Named names := by
  cases element with
  | enum type | message type => exact h type (List.mem_singleton_self type)
  | scalar type | freeForm form => trivial

theorem Shape.named_of_references {shape : Shape} (h : ∀ r ∈ shape.references, r.Named names) : shape.Named names := by
  cases shape with
  | one element | optional element | many element => exact Element.named_of_references h
  | boxed message => exact h message (List.mem_singleton_self message)
  | map key value =>
    obtain ⟨hKey, hValue⟩ := List.forall_mem_append.mp h
    exact ⟨Element.named_of_references hKey, Element.named_of_references hValue⟩

theorem Payload.named_of_references {payload : Payload} (h : ∀ r ∈ payload.references, r.Named names) :
    payload.Named names := by
  cases payload with
  | empty => trivial
  | named reference => exact h reference (List.mem_singleton_self reference)

/-- A field of a message that can be written: its name, its comment, and what it refers to. -/
structure TypedField.Named (names : LocalNames) (field : TypedField) : Prop where
  name : isSchemaName field.decl.name = true
  references : ∀ r ∈ field.role.references, r.Named names
  comment : Plain field.comment

theorem isSchemaName_withSuffix {name : String} (h : isSchemaName name = true) (used : List String) :
    isSchemaName (withSuffix "_" used name) = true := by
  obtain ⟨n, hName⟩ := withSuffix_eq "_" used name
  rw [hName]
  exact isSchemaName_repeatedly h isNameChar_underscore n

theorem TypedField.Named.alone {field : TypedField} (h : field.Named names) {shape : Shape}
    (hRole : field.role = .plain shape) (used : List String) :
    (field.alone shape (withSuffix "_" used (snake field.decl.name))).Named names := by
  have hReferences := h.references
  rw [hRole] at hReferences
  exact ⟨isSchemaName_withSuffix (isSchemaName_snake h.name) used, Shape.named_of_references hReferences, h.comment⟩

theorem TypedField.Named.asMember {field : TypedField} (h : field.Named names) {index : Int} {element : Element}
    (hRole : field.role = .member index element) (used : List String) :
    (field.asMember element (withSuffix "_" used (getterRequest field))).Named names := by
  have hReferences := h.references
  rw [hRole] at hReferences
  exact ⟨isDeclarable_typeName h.name, isDeclarable_getter used h.name, Element.named_of_references hReferences,
    h.comment⟩

theorem Field.Named.addMember {field : Field} (h : field.Named names) {member : Member} (hMember : member.Named names)
    (index : Int) : (field.addMember index member).Named names := by
  cases field with
  | plain field => exact h
  | oneof oneof =>
    unfold Field.addMember
    dsimp only
    split
    · exact ⟨h.name, h.enumName, h.comment, List.forall_mem_append.mpr
        ⟨h.members, List.forall_mem_singleton.mpr hMember⟩⟩
    · exact h

variable {file : FileNode} {message : MessageNode} (hComments : file.Commented) (hFields : HasSchemaNames message)
  (hType : isCapital (typePathName message.typeName) = true)
include hComments hFields hType

/-- One more field that can be written keeps all fields of a structure so. -/
theorem Step.named {state next : Assembly} {field : TypedField} (hStep : Step file message state field next)
    (hField : field.Named names) (h : ∀ f ∈ state.fields, f.Named names) : ∀ f ∈ next.fields, f.Named names := by
  cases hStep with
  | alone hRole hName =>
    refine List.forall_mem_append.mpr ⟨h, List.forall_mem_singleton.mpr ?_⟩
    rw [hName]
    exact hField.alone hRole _
  | joins hRole hKnown hGetter =>
    intro f hF
    obtain ⟨first, hFirst, rfl⟩ := List.mem_map.mp hF
    rw [hGetter]
    exact (h first hFirst).addMember (hField.asMember hRole _) _
  | @begins index element getter name enumName hRole hNew hGetter hName hEnum =>
    refine List.forall_mem_append.mpr ⟨h, List.forall_mem_singleton.mpr ?_⟩
    have hOneof := hFields.oneofName index
    constructor
    case name =>
      rw [hName]
      exact isSchemaName_withSuffix (isSchemaName_snake hOneof) _
    case enumName =>
      obtain ⟨n, hSuffixes⟩ := withSuffix_eq "Oneof" state.typeNames (enumRequest message index)
      rw [hEnum, hSuffixes]
      exact isDeclarable_append_of_capitals hType (isCapital_pascal hOneof) n
    case comment =>
      dsimp only
      unfold oneofComment?
      split
      · exact hComments _
      · exact nofun
    case members =>
      rw [hGetter]
      exact List.forall_mem_singleton.mpr (hField.asMember hRole _)

theorem named_assemble (used : List String) (typed : List TypedField) (h : ∀ field ∈ typed, field.Named names) :
    ∀ f ∈ (assemble file message used typed).fields, f.Named names := by
  have hAll : (∀ field ∈ typed, field.Named names) →
      ∀ f ∈ (assemble file message used typed).fields, f.Named names := by
    refine assemble_induction (P := fun front state => (∀ field ∈ front, field.Named names) →
      ∀ f ∈ state.fields, f.Named names) (fun _ f hF => absurd hF List.not_mem_nil) ?_ typed
    intro front field state next _ ih hStep hBoth
    obtain ⟨hFront, hField⟩ := List.forall_mem_append.mp hBoth
    exact hStep.named hComments hFields hType (List.forall_mem_singleton.mp hField) (ih hFront)
  exact hAll h

end

/-! ### Structures -/

theorem exists_message_of_struct {file : FileNode} {used : List String} {messages : List TypedMessage} {s : Struct}
    (h : s ∈ Scope.structs file used messages) : ∃ message ∈ messages, ∃ used,
      s.name = typePathName message.node.typeName ∧ s.comment = file.comment? message.node.path ∧
      s.fields = (assemble file message.node used message.fields).fields := by
  induction messages generalizing used with
  | nil => cases h
  | cons message rest ih =>
    rcases List.mem_cons.mp h with rfl | h
    · exact ⟨message, List.mem_cons_self, used, rfl, rfl, rfl⟩
    · obtain ⟨other, hOther, hFound⟩ := ih h
      exact ⟨other, List.mem_cons_of_mem _ hOther, hFound⟩

theorem comment_of_typedFields {scope : Scope} {path : SourcePath} {start : Nat} {fields : List FieldDecl}
    {typed : List TypedField} (h : scope.typedFields path start fields = .ok typed) {t : TypedField} (hT : t ∈ typed) :
    ∃ i, t.comment = scope.file.comment? (path.field i) := by
  have hNote := List.mem_map_of_mem (f := fun field : TypedField => (field.role.home, field.note)) hT
  rw [Scope.notes_of_typedFields h] at hNote
  obtain ⟨⟨field, i⟩, -, hSame⟩ := List.mem_map.mp hNote
  exact ⟨i, congrArg (·.2.comment) hSame.symm⟩

theorem typedFields_of_typedMessage {scope : Scope} {node : MessageNode} {message : TypedMessage}
    (h : scope.typedMessage node = .ok message) :
    message.node = node ∧ scope.typedFields node.path 0 node.decl.fields = .ok message.fields := by
  unfold Scope.typedMessage at h
  split at h
  · rename_i fields hFields
    cases h
    exact ⟨rfl, hFields⟩
  · cases h

/-! ### Models -/

theorem ModelFile.file_of_ofScope {scope : Scope} {model : ModelFile} (h : ofScope scope = .ok model) :
    model.file = scope.file := by
  unfold ofScope at h
  split at h
  · cases h
  · cases h
    rfl

section

variable {files : List FileDecl} {generate : List String} {params : Parameters} {scope : Scope}
  (hPrepare : Graph.prepare files generate params = .ok (scope.graph, scope.index))
  (hNamed : ∀ file ∈ files, file.Named) {file : FileNode} (hFile : scope.graph.file? scope.place = some file)
  (hComments : file.Commented)
include hPrepare hNamed hFile hComments

theorem headerPlain_of_prepare : HeaderPlain file := by
  obtain ⟨hDecl, -, -⟩ := Graph.named_of_prepare hPrepare hNamed hFile
  exact ⟨hDecl.line.1, hDecl.line.2, hComments _⟩

theorem enumNamed_of_prepare {e : EnumNode} (hE : e ∈ file.enums) : EnumNamed file e := by
  obtain ⟨hDecl, -, hEnums⟩ := Graph.named_of_prepare hPrepare hNamed hFile
  obtain ⟨hName, hConstants⟩ := hDecl.enum (hEnums ▸ hE)
  exact ⟨hName, hConstants, hComments _, fun i => hComments _⟩

theorem named_of_struct {model : ModelFile} (h : ModelFile.ofScope scope = .ok model)
    (hModules : ∀ path ∈ model.names.paths, PartsNameModules path) {s : Struct}
    (hS : s ∈ model.structs) : s.Named model.names := by
  obtain ⟨hDecl, hMessages, -⟩ := Graph.named_of_prepare hPrepare hNamed hFile
  have hReferences := ModelFile.named_of_mem hPrepare hNamed h hModules
  have hScope := Scope.file_of_file? hFile
  unfold ModelFile.ofScope at h
  split at h
  · cases h
  · rename_i messages hTyped
    cases h
    obtain ⟨typed, hMember, used, hName, hComment, hFields⟩ := exists_message_of_struct hS
    obtain ⟨node, hNode, hMessage⟩ := exists_of_forall₂_right (forall₂_of_mapM hTyped) typed hMember
    obtain ⟨rfl, hTypedFields⟩ := typedFields_of_typedMessage hMessage
    have hMem : typed.node ∈ file.decl.messageNodes := by
      rw [← hMessages, ← hScope]
      exact (List.mem_filter.mp hNode).1
    obtain ⟨hNe, hPath⟩ := hDecl.types.messagePath hMem
    have hSchema := hDecl.fields _ hMem
    constructor
    case name =>
      rw [hName]
      exact hDecl.message hMem
    case comment =>
      rw [hComment, hScope]
      exact hComments _
    case fields =>
      rw [hFields, hScope]
      refine named_assemble hComments hSchema (isCapital_typePathName hNe hPath) used _ fun t hT => ⟨?_, ?_, ?_⟩
      · exact hSchema.1 _ (decl_mem (isTyped_of_typedFields hTypedFields) t hT)
      · exact fun r hR => hReferences r (mem_references_structs hMember hT hR)
      · obtain ⟨i, hRemark⟩ := comment_of_typedFields hTypedFields hT
        rw [hRemark, hScope]
        exact hComments _

/-- A model of a named schema can be written if the paths of its packages name modules. -/
theorem ModelFile.named_of_ofScope {model : ModelFile} (h : ofScope scope = .ok model)
    (hModules : ∀ path ∈ model.names.paths, PartsNameModules path) : model.Named {} := by
  have hScope := Scope.file_of_file? hFile
  have hModel : model.file = file := (file_of_ofScope h).trans hScope
  constructor
  case header =>
    rw [hModel]
    exact headerPlain_of_prepare hPrepare hNamed hFile hComments
  case packages => exact packagesNamed (exists_names h) hModules
  case aliases =>
    intro a hA
    have hPackage : a.importPath ∈ model.names.paths := (mem_paths h).mpr (.inl ⟨a, hA, rfl⟩)
    refine ⟨isDeclarable_get (exists_names h) hModules hPackage, ?_⟩
    obtain ⟨s, -, rfl, -⟩ := exists_imported h hA
    exact Graph.isDeclarable_exportedNames hPrepare hNamed s
  case enums =>
    rw [hModel, enums_of_ofScope h, hScope]
    exact fun e => enumNamed_of_prepare hPrepare hNamed hFile hComments
  case structs => exact fun s => named_of_struct hPrepare hNamed hFile hComments h hModules

end

/-! ### APIs -/

section

variable {scope : Scope} {rules : Http.Rules} {names : LocalNames} (hComments : scope.file.Commented)
include hComments

theorem named_of_endpoint {service : ServiceDecl} {path : SourcePath} {used : List String} {method : MethodDecl}
    {e : Endpoint} (h : scope.endpoint rules service path used method = .ok e)
    (hMethod : isSchemaName method.name = true)
    (hUnderscore : method.name ≠ "_") (hReferences : ∀ r ∈ e.references, r.Named names) : e.Named names := by
  obtain ⟨hComment, -⟩ := Scope.remarks_of_endpoint h
  obtain ⟨⟨rule, route⟩, -, h⟩ := bind_ok_iff.mp h
  obtain ⟨⟨input, binds⟩, -, h⟩ := bind_ok_iff.mp h
  obtain ⟨⟨output, filled⟩, -, h⟩ := bind_ok_iff.mp h
  cases h
  obtain ⟨hInput, hOutput⟩ := List.forall_mem_append.mp hReferences
  exact ⟨isDeclarable_methodName used hMethod hUnderscore, Payload.named_of_references hInput,
    Payload.named_of_references hOutput, hComment ▸ hComments path⟩

theorem named_of_endpoints {service : ServiceDecl} {path : SourcePath} {start : Nat} {used : List String}
    {methods : List MethodDecl} {endpoints : List Endpoint}
    (h : scope.endpoints rules service path start used methods = .ok endpoints)
    (hMethods : ∀ method ∈ methods, isSchemaName method.name = true ∧ method.name ≠ "_")
    (hReferences : ∀ e ∈ endpoints, ∀ r ∈ e.references, r.Named names) : ∀ e ∈ endpoints, e.Named names := by
  induction methods generalizing start used endpoints with
  | nil =>
    cases h
    exact fun e hE => absurd hE List.not_mem_nil
  | cons method rest ih =>
    obtain ⟨first, hFirst, h⟩ := bind_ok_iff.mp h
    obtain ⟨others, hRest, h⟩ := bind_ok_iff.mp h
    cases h
    obtain ⟨⟨hName, hUnderscore⟩, hMethods⟩ := List.forall_mem_cons.mp hMethods
    obtain ⟨hHead, hReferences⟩ := List.forall_mem_cons.mp hReferences
    exact List.forall_mem_cons.mpr ⟨named_of_endpoint hComments hFirst hName hUnderscore hHead,
        ih hRest hMethods hReferences⟩

theorem named_of_services {start : Nat} {decls : List ServiceDecl} {services : List Service}
    (h : scope.services rules start decls = .ok services)
    (hServices : ∀ decl ∈ decls, isSchemaName decl.name = true)
    (hMethods : ∀ decl ∈ decls, ∀ method ∈ decl.methods, isSchemaName method.name = true ∧ method.name ≠ "_")
    (hReferences : ∀ s ∈ services, ∀ e ∈ s.endpoints, ∀ r ∈ e.references, r.Named names) :
    ∀ s ∈ services, s.Named names := by
  induction decls generalizing start services with
  | nil =>
    cases h
    exact fun s hS => absurd hS List.not_mem_nil
  | cons decl rest ih =>
    obtain ⟨endpoints, hEndpoints, h⟩ := bind_ok_iff.mp h
    obtain ⟨others, hRest, h⟩ := bind_ok_iff.mp h
    cases h
    obtain ⟨hName, hServices⟩ := List.forall_mem_cons.mp hServices
    obtain ⟨hFirst, hMethods⟩ := List.forall_mem_cons.mp hMethods
    obtain ⟨hHead, hReferences⟩ := List.forall_mem_cons.mp hReferences
    refine List.forall_mem_cons.mpr ⟨?_, ih hRest hServices hMethods hReferences⟩
    exact ⟨isCapital_pascal hName, isSchemaName_snake hName, hComments _,
      named_of_endpoints hComments hEndpoints hFirst hHead⟩

end

/-- An API of a named schema can be written if the paths of its packages name modules and no method is called by
the single underscore. -/
theorem ApiFile.named_of_ofScope {files : List FileDecl} {generate : List String} {params : Parameters} {scope : Scope}
    (hPrepare : Graph.prepare files generate params = .ok (scope.graph, scope.index))
    (hNamed : ∀ file ∈ files, file.Named) {file : FileNode} (hFile : scope.graph.file? scope.place = some file)
    (hComments : file.Commented) {rules : Http.Rules} {api : ApiFile} (h : ofScope scope rules = .ok api)
    (hModules : ∀ path ∈ api.names.paths, PartsNameModules path)
    (hMethods : ∀ method ∈ file.decl.methods, method.2.name ≠ "_") : api.Named {} := by
  obtain ⟨hDecl, -, -⟩ := Graph.named_of_prepare hPrepare hNamed hFile
  have hReferences := named_of_mem hPrepare hNamed h hModules
  have hPackages := packagesNamed (exists_names h) hModules
  have hScope := Scope.file_of_file? hFile
  unfold ofScope at h
  split at h
  · cases h
  · rename_i services hServices
    cases h
    refine ⟨?_, passes_routerSegments, hPackages, ?_⟩
    · dsimp only
      rw [hScope]
      exact headerPlain_of_prepare hPrepare hNamed hFile hComments
    · rw [hScope] at hServices
      refine named_of_services (hScope ▸ hComments) hServices hDecl.services ?_ ?_
      · intro decl hMember method hMethod
        exact ⟨hDecl.methods decl hMember method hMethod, hMethods (decl, method)
          (List.mem_flatMap.mpr ⟨decl, hMember, List.mem_map_of_mem hMethod⟩)⟩
      · intro s hS e hE r hR
        exact hReferences r (List.mem_flatMap.mpr ⟨e, List.mem_flatMap.mpr ⟨s, hS, hE⟩, hR⟩)

end Emit

/-! ### Requests -/

namespace Project

open Emit

variable {project : Project} {files : List FileDecl} {generate : List String}

theorem exists_api {place : Nat} {file : FileNode} (hFile : project.graph.file? place = some file)
    (hTypes : project.graph.TypesResolve project.index)
    (hMapped : ∀ method ∈ file.decl.methods, (project.scope place .api).Mapped project.rules method.1 method.2) :
    ∃ api, project.api place = .ok api := by
  have hScope : (project.scope place .api).file = file := Scope.file_of_file? hFile
  have hKnown : ∀ typeName ∈ project.graph.payloadNames, (project.scope place .api).Known typeName := by
    intro typeName hMem
    obtain ⟨s, hGet, -⟩ := NameIndex.leadsTo_iff.mp (hTypes.methods typeName hMem)
    exact .inr ⟨s, hGet⟩
  rw [api, ← failure?_eq_none_iff, ApiFile.failure?_ofScope, List.findSome?_eq_none_iff]
  rintro ⟨decl, method⟩ hMethod
  obtain ⟨other, hDecl, hPair⟩ := List.mem_flatMap.mp hMethod
  obtain ⟨same, hMember, hSame⟩ := List.mem_map.mp hPair
  cases hSame
  obtain ⟨hInput, hOutput⟩ := mem_payloadNames hDecl hMember
  exact Scope.fault?_eq_none_iff.mpr ⟨hMapped _ (hScope ▸ hMethod), hKnown _ hInput, hKnown _ hOutput⟩

/-- Of every file of a schema with names there are a model and an API, and what is printed of them is accepted: the
model unless a part of a package's path is a mere symbol, the API unless that is so or a method is called by the
single underscore, both unless a line of a comment has a carriage return in it. -/
theorem texts_accepted
    (hPrepare : Graph.prepare files generate project.config.params = .ok (project.graph, project.index))
    (hDefault : project.config.params = {}) (hNamed : ∀ file ∈ files, file.Named)
    (hTypes : project.graph.TypesResolve project.index)
    (hRepeated : ∀ field ∈ project.graph.fields, field.label = .repeated → field.typeName ≠ "" →
      ∃ s, project.index.get field.typeName = .ok s)
    {place : Nat} {file : FileNode} (hFile : project.graph.file? place = some file)
    (hMapped : ∀ method ∈ file.decl.methods, (project.scope place .api).Mapped project.rules method.1 method.2)
    (hComments : file.Commented) :
    ∃ model api, project.model place = .ok model ∧ project.api place = .ok api ∧
      ((∀ path ∈ model.names.paths, PartsNameModules path) →
        ∃ text, format (project.outputName place .model) (project.modelText model) = .ok text) ∧
      ((∀ path ∈ api.names.paths, PartsNameModules path) → (∀ method ∈ file.decl.methods, method.2.name ≠ "_") →
        ∃ text, format (project.outputName place .api) (project.apiText api) = .ok text) := by
  obtain ⟨model, hModel⟩ : ∃ model, project.model place = .ok model :=
    exists_model fun m hM f hF => exists_role hTypes (mem_fields hM hF) (hRepeated f (mem_fields hM hF))
  obtain ⟨api, hApi⟩ := exists_api hFile hTypes hMapped
  refine ⟨model, api, hModel, hApi, fun hModules => ?_, fun hModules hMethods => ?_⟩
  · rw [modelText, hDefault]
    exact format_of_model (ModelFile.named_of_ofScope hPrepare hNamed hFile hComments hModel hModules) _
  · refine format_of_api ?_ _
    rw [hDefault]
    exact ApiFile.named_of_ofScope hPrepare hNamed hFile hComments hApi hModules hMethods

/-- A file with a service, whose messages hold what another package declares. A line of a comment in it ends with a
carriage return. -/
def saleFile : FileDecl where
  name := "shop/order.proto"
  package := "shop"
  imports := ["stock/item.proto"]
  messages := [.mk "Order" [{ name := "self", label := .repeated, type := .message, typeName := ".stock.Item" }]
    [] [] [] [] [] [] false false []]
  services := [{ name := "orders", methods :=
    [{ name := "type", inputType := ".stock.Item", outputType := ".shop.Order" }] }]
  locations := [⟨[4, 0], some "An order,\r\nas \"it\" is.\n"⟩]

def saleFiles : List FileDecl :=
  [{ name := "stock/item.proto", package := "stock", messages := [.mk "Item" [] [] [] [] [] [] [] false false []] },
    saleFile]

def saleRules : Http.Rules := .ofList [("shop.orders.type", { pattern := some (.post "/orders") })]

theorem named_saleFiles : ∀ file ∈ saleFiles, file.Named := by
  refine List.forall_mem_cons.mpr ⟨?_, List.forall_mem_singleton.mpr ?_⟩ <;>
    exact ⟨by decide, ⟨by decide +kernel, by decide +kernel⟩, by decide +kernel, by decide +kernel, by decide,
        by decide⟩

theorem texts_accepted_saleFiles : ∃ (project : Project) (model : ModelFile) (api : ApiFile),
    Graph.prepare saleFiles ["shop/order.proto"] {} = .ok (project.graph, project.index) ∧
      project.model 1 = .ok model ∧ model.names.paths = ["stock"] ∧
      project.api 1 = .ok api ∧ api.endpoints.map (·.name) = ["type_"] ∧
      (∃ text, format (project.outputName 1 .model) (project.modelText model) = .ok text) ∧
      ∃ text, format (project.outputName 1 .api) (project.apiText api) = .ok text := by
  obtain ⟨project, file, hPrepare, hDefault, hRules, hTypes, hLeads, hFile, hDecl, ⟨m, hM, hUses⟩, a, hA, hPaths,
      hNames⟩ : ∃ (project : Project) (file : FileNode),
        Graph.prepare saleFiles ["shop/order.proto"] {} = .ok (project.graph, project.index) ∧
        project.config.params = {} ∧ project.rules = saleRules ∧ project.graph.TypesResolve project.index ∧
        (∀ field ∈ project.graph.fields, field.label = .repeated → field.typeName ≠ "" →
          project.index.leadsTo (fun _ => true) field.typeName = true) ∧
        project.graph.file? 1 = some file ∧ file.decl = saleFile ∧
        (∃ model, project.model 1 = .ok model ∧ model.names.paths = ["stock"]) ∧
        ∃ api, project.api 1 = .ok api ∧ api.names.paths = ["stock"] ∧ api.endpoints.map (·.name) = ["type_"] :=
    ⟨⟨_, _, saleRules, {}⟩, _, rfl, rfl, rfl, by decide +kernel, by decide +kernel, rfl, rfl,
      ⟨_, rfl, by decide +kernel⟩, _, rfl, by decide +kernel, by decide +kernel⟩
  have hModules : ∀ path ∈ ["stock"], PartsNameModules path := by decide
  have hScope : (project.scope 1 .api).file = file := Scope.file_of_file? hFile
  have hRepeated : ∀ field ∈ project.graph.fields, field.label = .repeated → field.typeName ≠ "" →
      ∃ s, project.index.get field.typeName = .ok s := by
    intro field hField hLabel hType
    obtain ⟨s, hGet, -⟩ := NameIndex.leadsTo_iff.mp (hLeads field hField hLabel hType)
    exact ⟨s, hGet⟩
  have hMapped : ∀ method ∈ file.decl.methods, (project.scope 1 .api).Mapped project.rules method.1 method.2 := by
    rw [hDecl, hRules]
    refine List.forall_mem_singleton.mpr ⟨{ pattern := some (.post "/orders") }, "/orders", ?_, .inr rfl⟩
    rw [hScope, hDecl]
    rfl
  have hComments : file.Commented := by
    refine FileNode.commented_of_locations ?_
    rw [hDecl]
    refine List.forall_mem_singleton.mpr fun comment hComment => ?_
    cases hComment
    decide
  obtain ⟨model, api, hModel, hApi, hFirst, hSecond⟩ :=
    texts_accepted (hDefault ▸ hPrepare) hDefault named_saleFiles hTypes hRepeated hFile hMapped hComments
  obtain rfl : m = model := Except.ok.inj (hM.symm.trans hModel)
  obtain rfl : a = api := Except.ok.inj (hA.symm.trans hApi)
  exact ⟨project, m, a, hPrepare, hModel, hUses, hApi, hNames, hFirst (hUses ▸ hModules),
    hSecond (hPaths ▸ hModules) (by rw [hDecl]; decide)⟩

end Project

end ProtoBind
