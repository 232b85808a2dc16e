import Mathlib
import ProtoBind.Proofs.AttachedComments
import ProtoBind.Proofs.SettledRuns
import ProtoBind.Proofs.TypePaths

/-!
# Comments in files

All that is emitted of the files of a request has the comments on the elements that it stands for.
-/

set_option autoImplicit false

namespace ProtoBind

open Naming Emit Text Wire

/-! ### APIs -/

namespace Emit.Scope

variable {scope : Scope} {rules : Http.Rules} {service : ServiceDecl}

theorem remarks_of_endpoint {path : SourcePath} {used : List String} {method : MethodDecl} {e : Endpoint}
    (h : scope.endpoint rules service path used method = .ok e) :
    e.comment = scope.file.comment? path ∧ e.directives = .ofComment? (scope.file.comment? path) := by
  obtain ⟨⟨rule, route⟩, -, h⟩ := bind_ok_iff.mp h
  obtain ⟨⟨input, binds⟩, -, h⟩ := bind_ok_iff.mp h
  obtain ⟨⟨output, hasFields⟩, -, h⟩ := bind_ok_iff.mp h
  cases h
  exact ⟨rfl, rfl⟩

/-- Methods have the comments at their paths, and the directives in these. -/
theorem remarks_of_endpoints {path : SourcePath} {start : Nat} {used : List String}
    {methods : List MethodDecl} {endpoints : List Endpoint}
    (h : scope.endpoints rules service path start used methods = .ok endpoints) :
    endpoints.map (fun e => (e.comment, e.directives)) = (methods.zipIdx start).map fun (_, j) =>
      (scope.file.comment? (path.method j), .ofComment? (scope.file.comment? (path.method j))) := by
  induction methods generalizing start used endpoints with
  | nil =>
    cases h
    rfl
  | cons method rest ih =>
    obtain ⟨e, hFirst, h⟩ := bind_ok_iff.mp h
    obtain ⟨others, hRest, h⟩ := bind_ok_iff.mp h
    cases h
    obtain ⟨hComment, hDirectives⟩ := remarks_of_endpoint hFirst
    rw [List.map_cons, ih hRest, hComment, hDirectives]
    rfl

theorem serviceSays {i : Nat} {decl : ServiceDecl} {s : Service}
    (hComment : s.comment = scope.file.comment? (SourcePath.service i))
    (hDeprecated : s.deprecated = decl.deprecated)
    (hEndpoints : scope.endpoints rules decl (SourcePath.service i) 0 [] decl.methods = .ok s.endpoints)
    (names : LocalNames) : ServiceSays scope.file.decl.commentOn i decl names s := by
  constructor
  · have hFound : scope.file.comment? (SourcePath.service i) = scope.file.decl.commentOn (.service i) :=
      comment?_path (.service i)
    rw [Service.traitLines, hComment, hFound, hDeprecated, List.append_assoc]
    exact docsOf_documentation _ _ _ _
  · have hRemarks := congrArg (List.map fun pair : Option String × Directives => (docLines pair.1, pair.2))
      (remarks_of_endpoints hEndpoints)
    rw [List.map_map, List.map_map] at hRemarks
    refine Eq.trans (List.map_congr_left ?_) (hRemarks.trans (List.map_congr_left ?_))
    · intro e _
      exact congrArg (·, e.directives) (docsOf_documentation e.comment false _ _)
    · rintro ⟨method, j⟩ -
      have hFound : scope.file.comment? ((SourcePath.service i).method j)
          = scope.file.decl.commentOn (.method i j) := comment?_path (.method i j)
      change (docLines (scope.file.comment? ((SourcePath.service i).method j)), Directives.ofComment?
        (scope.file.comment? ((SourcePath.service i).method j))) = _
      rw [hFound]

theorem services_say {start : Nat} {decls : List ServiceDecl} {services : List Service}
    (h : scope.services rules start decls = .ok services) (names : LocalNames) :
    List.Forall₂ (fun (decl, i) s => ServiceSays scope.file.decl.commentOn i decl names s)
      (decls.zipIdx start) services := by
  induction decls generalizing start services with
  | nil =>
    cases h
    exact .nil
  | cons decl rest ih =>
    obtain ⟨endpoints, hEndpoints, h⟩ := bind_ok_iff.mp h
    obtain ⟨others, hRest, h⟩ := bind_ok_iff.mp h
    cases h
    exact .cons (serviceSays rfl rfl hEndpoints names) (ih hRest)

theorem apiSays {api : ApiFile} (h : ApiFile.ofScope scope rules = .ok api) :
    ApiSays scope.file.decl.commentOn scope.file.decl api := by
  unfold ApiFile.ofScope at h
  split at h
  · cases h
  · rename_i services hServices
    cases h
    exact ⟨header_eq_headerOf, services_say hServices _⟩

end Emit.Scope

/-! ### Models -/

theorem exists_forall₂ {α β : Type} {R : α → β → Prop} {bs : List β} (h : ∀ b ∈ bs, ∃ a, R a b) :
    ∃ as, List.Forall₂ R as bs := by
  induction bs with
  | nil => exact ⟨[], .nil⟩
  | cons b rest ih =>
    obtain ⟨a, hHead⟩ := h b List.mem_cons_self
    obtain ⟨as, hRest⟩ := ih fun other hOther => h other (List.mem_cons_of_mem _ hOther)
    exact ⟨a :: as, .cons hHead hRest⟩

/-- The spots of a list of nodes, if each of them has one, and only one: those where something stands that
is kept. -/
theorem exists_spots {Place Node Decl : Type} {place : Place → SourcePath}
    (hPlace : Function.Injective place) {path : Node → SourcePath} {declOf : Node → Decl}
    {at? : Place → Option Decl} {nodes : List Node} {kept : Decl → Prop}
    (hNodes : ∀ target decl, (∃ node ∈ nodes, path node = target ∧ declOf node = decl) ↔
      ∃ spot, target = place spot ∧ at? spot = some decl ∧ kept decl) :
    ∃ spots, (∀ spot, spot ∈ spots ↔ ∃ decl, at? spot = some decl ∧ kept decl) ∧
      List.Forall₂ (fun spot node => node ∈ nodes ∧ path node = place spot ∧ at? spot = some (declOf node))
        spots nodes := by
  have hEach : ∀ node ∈ nodes, ∃ spot,
      node ∈ nodes ∧ path node = place spot ∧ at? spot = some (declOf node) := by
    intro node hNode
    obtain ⟨spot, hPath, hDecl, -⟩ := (hNodes _ _).mp ⟨node, hNode, rfl, rfl⟩
    exact ⟨spot, hNode, hPath, hDecl⟩
  obtain ⟨spots, hSpots⟩ := exists_forall₂ hEach
  refine ⟨spots, ?_, hSpots⟩
  intro spot
  constructor
  · intro hSpot
    obtain ⟨node, -, hNode, hPath, -⟩ := exists_of_forall₂_right hSpots.flip spot hSpot
    obtain ⟨other, hSame, hFound⟩ := (hNodes _ _).mp ⟨node, hNode, rfl, rfl⟩
    obtain rfl : spot = other := hPlace (hPath.symm.trans hSame)
    exact ⟨declOf node, hFound⟩
  · rintro ⟨decl, hDecl, hKept⟩
    obtain ⟨node, hNode, hPath, -⟩ := (hNodes _ _).mpr ⟨spot, rfl, hDecl, hKept⟩
    obtain ⟨other, hOther, -, hSame, -⟩ := exists_of_forall₂_right hSpots node hNode
    obtain rfl : spot = other := hPlace (hPath.symm.trans hSame)
    exact hOther

theorem MessageSpot.path_injective : Function.Injective MessageSpot.path := by
  intro a b h
  exact Spot.message.inj (@Spot.path_injective (.message a) (.message b) h)

theorem EnumSpot.path_injective : Function.Injective EnumSpot.path := by
  intro a b h
  exact Spot.enum.inj (@Spot.path_injective (.enum a) (.enum b) h)

/-- Naming the constants of enums keeps what is declared, and where. -/
theorem spots_of_nameEnums (used : List String) (enums : List EnumNode) :
    (nameEnums used enums).map (fun e => (e.path, e.decl)) = enums.map fun e => (e.path, e.decl) := by
  induction enums generalizing used with
  | nil => rfl
  | cons e rest ih =>
    rw [nameEnums, List.map_cons, List.map_cons, ih]

structure Noded (file : FileNode) : Prop where
  messages : file.messages = file.decl.messageNodes
  enums : file.enums.map (fun e => (e.path, e.decl)) = file.decl.enumNodes.map fun e => (e.path, e.decl)
  constants : ∀ e ∈ file.enums, e.constants.length = e.decl.values.length

theorem Graph.noded_of_prepare {files : List FileDecl} {names : List String} {params : Parameters}
    {g : Graph} {index : NameIndex} (h : Graph.prepare files names params = .ok (g, index)) {place : Nat}
    {file : FileNode} (hFile : g.file? place = some file) : Noded file ∧ files[place]? = some file.decl := by
  obtain ⟨hDecl, hMessages, hEnums⟩ := exists_decl_of_prepare h hFile
  refine ⟨⟨hMessages, ?_, ?_⟩, hDecl⟩
  · rw [hEnums]
    exact spots_of_nameEnums [] _
  · rw [hEnums]
    exact length_constants

namespace Emit.Scope

variable {scope : Scope} {model : ModelFile}

theorem exists_enumSpots (h : Noded scope.file) :
    ∃ spots, (∀ spot, spot ∈ spots ↔ (scope.file.decl.enumAt? spot).isSome) ∧
      List.Forall₂ (fun spot e => ∃ decl, scope.file.decl.enumAt? spot = some decl ∧
        EnumSays scope.file.decl.commentOn spot decl scope.file e) spots scope.file.enums := by
  have hNodes : ∀ target decl, (∃ e ∈ scope.file.enums, e.path = target ∧ e.decl = decl) ↔
      ∃ spot : EnumSpot, target = spot.path ∧ scope.file.decl.enumAt? spot = some decl ∧ True := by
    intro target decl
    simp only [and_true]
    rw [← mem_enumNodes_iff]
    have hPairs : ∀ enums : List EnumNode, (∃ e ∈ enums, e.path = target ∧ e.decl = decl) ↔
        (target, decl) ∈ enums.map fun e => (e.path, e.decl) := by
      simp
    rw [hPairs, hPairs, h.enums]
  obtain ⟨spots, hSpots, hAll⟩ := exists_spots EnumSpot.path_injective hNodes
  refine ⟨spots, ?_, hAll.imp ?_⟩
  · intro spot
    rw [hSpots, Option.isSome_iff_exists]
    simp only [and_true]
  · rintro spot e ⟨hE, hPath, hDecl⟩
    exact ⟨e.decl, hDecl, enumSays hPath (h.constants e hE)⟩

theorem exists_structSpots (h : Noded scope.file) {messages : List TypedMessage}
    (hTyped : scope.typedMessages = .ok messages) (names : LocalNames) :
    ∃ spots, (∀ spot, spot ∈ spots ↔
        ∃ decl, scope.file.decl.messageAt? spot = some decl ∧ decl.isMapEntry = false) ∧
      List.Forall₂ (fun spot s => ∃ decl, scope.file.decl.messageAt? spot = some decl ∧
        StructSays scope.file.decl.commentOn spot decl names s) spots
        (Scope.structs scope.file scope.declaredNames messages) := by
  have hNodes : ∀ target decl,
      (∃ node ∈ scope.declaredMessages, node.path = target ∧ node.decl = decl) ↔
        ∃ spot : MessageSpot, target = spot.path ∧ scope.file.decl.messageAt? spot = some decl ∧
          decl.isMapEntry = false := by
    intro target decl
    rw [declaredMessages, h.messages]
    constructor
    · rintro ⟨node, hNode, hPath, rfl⟩
      obtain ⟨hMem, hKept⟩ := List.mem_filter.mp hNode
      obtain ⟨spot, hSpot, hDecl⟩ := (mem_messageNodes_iff _ _ _).mp ⟨node, hMem, hPath, rfl⟩
      exact ⟨spot, hSpot, hDecl, by simpa using hKept⟩
    · rintro ⟨spot, hSpot, hDecl, hKept⟩
      obtain ⟨node, hMem, hPath, rfl⟩ := (mem_messageNodes_iff _ _ _).mpr ⟨spot, hSpot, hDecl⟩
      exact ⟨node, List.mem_filter.mpr ⟨hMem, by rw [hKept]; rfl⟩, hPath, rfl⟩
  have hStructs : List.Forall₂ (fun node s => ∃ fields,
      scope.typedFields node.path 0 node.decl.fields = .ok fields ∧ StructOf scope.file ⟨node, fields⟩ s)
      scope.declaredMessages (Scope.structs scope.file scope.declaredNames messages) := by
    refine forall₂_trans ?_ (forall₂_of_mapM hTyped) (structs_of_messages _ _ _)
    intro node message s hMessage hStruct
    unfold typedMessage at hMessage
    split at hMessage
    · rename_i fields hFields
      cases hMessage
      exact ⟨fields, hFields, hStruct⟩
    · cases hMessage
  obtain ⟨spots, hSpots, hAll⟩ := exists_spots MessageSpot.path_injective hNodes
  refine ⟨spots, hSpots, forall₂_trans ?_ hAll hStructs⟩
  rintro spot node s ⟨-, hPath, hDecl⟩ ⟨fields, hFields, hStruct⟩
  exact ⟨node.decl, hDecl, structSays hPath hFields hStruct names⟩

theorem modelSays (hFile : Noded scope.file) (h : ModelFile.ofScope scope = .ok model) :
    ModelSays scope.file.decl.commentOn scope.file.decl model := by
  unfold ModelFile.ofScope at h
  split at h
  · cases h
  · rename_i messages hTyped
    cases h
    exact ⟨header_eq_headerOf, exists_enumSpots hFile, exists_structSpots hFile hTyped _⟩

end Emit.Scope

/-! ### Requests -/

/-- All that is emitted for a file of a request has the comments on the elements that it stands for: those
whose paths lead to them from the file as it came in. No two elements have one text for their paths. -/
theorem comments_attached {bytes : Bytes} {config : Config} {project : Project}
    (h : Project.ofBytes bytes config = .ok project) {place : Nat} {file : FileNode}
    (hFile : project.graph.file? place = some file) :
    (∃ fields raw, decodeMessage Schema.types 1 "CodeGeneratorRequest" bytes = some fields ∧
      (fields.messages 15)[place]? = some raw ∧ file.decl = .ofFields raw ∧
      ∀ spot element, file.decl.elementAt? spot = some element → Leads raw spot.path element) ∧
    (Function.Injective fun spot : Spot => spot.path.key) ∧
    (∀ model, project.model place = .ok model → ModelSays file.decl.commentOn file.decl model) ∧
    ∀ api, project.api place = .ok api → ApiSays file.decl.commentOn file.decl api := by
  obtain ⟨request, hRequest, -⟩ := ofBytes_spec h
  obtain ⟨hPrepare, -⟩ := prepare_of_ofBytes hRequest h
  obtain ⟨hNoded, hDecl⟩ := Graph.noded_of_prepare hPrepare hFile
  have hScope : ∀ pass, (project.scope place pass).file = file := fun pass => Scope.file_of_file? hFile
  refine ⟨?_, Spot.key_injective, ?_, ?_⟩
  · unfold Request.decode at hRequest
    split at hRequest
    · rename_i fields hFields
      cases hRequest
      obtain ⟨raw, hRaw, hOf⟩ := exists_of_getElem?_map hDecl
      refine ⟨fields, raw, hFields, hRaw, hOf, ?_⟩
      rw [hOf]
      exact fun spot element hElement => leads_path hElement
    · cases hRequest
  · intro model hModel
    have hSays := @Scope.modelSays (project.scope place .model) model
    rw [hScope] at hSays
    exact hSays hNoded hModel
  · intro api hApi
    have hSays := Scope.apiSays hApi
    rwa [hScope] at hSays

/-- A request for a file with two messages that have comments, one in the other. Behind the location of the
outer one comes another with its path that has no comment. -/
def notedFile : Request where
  filesToGenerate := ["a.proto"]
  files := [
    { name := "a.proto",
      messages := [
        .mk "M" [{ name := "f", number := 1, type := .int32 }]
          [.mk "N" [] [] [] [] [] [] [] false false []] [] [] [] [] [] false false []],
      locations := [⟨[4, 0], some "A"⟩, ⟨[4, 0], none⟩, ⟨[4, 0, 3, 0], some "B"⟩] }]

def notedFileBytes : Bytes :=
  [10, 7, 97, 46, 112, 114, 111, 116, 111, 122, 58, 10, 7, 97, 46, 112, 114, 111, 116, 111, 34, 19,
    10, 1, 77, 18, 9, 10, 1, 102, 24, 1, 32, 1, 40, 5, 26, 3, 10, 1, 78, 74, 26, 10, 7, 10, 2, 4, 0,
    26, 1, 65, 10, 4, 10, 2, 4, 0, 10, 9, 10, 4, 4, 0, 3, 0, 26, 1, 66]

def notedConfig : Config := { params := { importPath := some "shop" } }

/-- Whether the first message of the first file is emitted with a comment that the last location with its
path does not have. -/
def Project.passesOver (project : Project) : Bool :=
  match project.graph.file? 0, project.model 0 with
  | some file, .ok model =>
    file.decl.commentOn (.message ⟨0, [0]⟩) == some "B" && file.decl.lastLeading? [4, 0] == none
      && (model.structs.map fun s => docsOf (s.lines model.names)) == [[.doc 0 "A"], [.doc 0 "B"]]
  | _, _ => false

theorem exists_passesOver :
    ∃ project, Project.ofBytes notedFileBytes notedConfig = .ok project ∧ project.passesOver = true := by
  have hDecode : Request.decode notedFileBytes = .ok notedFile := rfl
  exact exists_project hDecode (by decide +kernel)

theorem comments_attached_notedFile : ∃ project file model,
    Project.ofBytes notedFileBytes notedConfig = .ok project ∧ project.graph.file? 0 = some file ∧
    project.model 0 = .ok model ∧ file.decl.commentOn (.message ⟨0, [0]⟩) = some "B" ∧
    ModelSays file.decl.commentOn file.decl model := by
  obtain ⟨project, hProject, hHolds⟩ := exists_passesOver
  unfold Project.passesOver at hHolds
  split at hHolds
  · rename_i file model hFile hModel
    simp only [Bool.and_eq_true, beq_iff_eq] at hHolds
    exact ⟨project, file, model, hProject, hFile, hModel, hHolds.1.1,
      (comments_attached hProject hFile).2.2.1 model hModel⟩
  · cases hHolds

/-- Where the last location with a path has no comment, the one before it is emitted. -/
theorem comment_before_last : ∃ project file model,
    Project.ofBytes notedFileBytes notedConfig = .ok project ∧ project.graph.file? 0 = some file ∧
    project.model 0 = .ok model ∧ file.decl.lastLeading? (Spot.path (.message ⟨0, []⟩)) = none ∧
    (model.structs.map fun s => docsOf (s.lines model.names)) = [[.doc 0 "A"], [.doc 0 "B"]] := by
  obtain ⟨project, hProject, hHolds⟩ := exists_passesOver
  unfold Project.passesOver at hHolds
  split at hHolds
  · rename_i file model hFile hModel
    simp only [Bool.and_eq_true, beq_iff_eq] at hHolds
    exact ⟨project, file, model, hProject, hFile, hModel, hHolds.1.2, hHolds.2⟩
  · cases hHolds

end ProtoBind
