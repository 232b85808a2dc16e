import ProtoBind.Proofs.ApiImports
import ProtoBind.Proofs.AttachedComments
import ProtoBind.Proofs.FieldNames
import ProtoBind.Proofs.KeptReferences
import ProtoBind.Proofs.LinePhrases
import ProtoBind.Proofs.ModelImports
import ProtoBind.Proofs.ModuleIdentifiers
import ProtoBind.Proofs.TypePaths

/-!
# Schemas with names

The elements of a schema have names as schemas allow them. Then all that a graph of it calls a type or a constant can
be declared, and so can the local names of packages, unless a mere symbol stands for
one.
-/

set_option autoImplicit false

namespace ProtoBind

open Naming Text Source

/-- A file all elements of which have names as schemas allow them, and whose own name stays on its line. -/
structure FileDecl.Named (file : FileDecl) : Prop where
  line : '\n' ∉ file.name.toList ∧ '\r' ∉ file.name.toList
  types : file.TypesNamed
  fields : ∀ node ∈ file.messageNodes, Emit.HasSchemaNames node
  values : ∀ e ∈ file.enumNodes, ∀ value ∈ e.decl.values, isSchemaName value.name = true
  services : ∀ service ∈ file.services, isSchemaName service.name = true
  methods : ∀ service ∈ file.services, ∀ method ∈ service.methods, isSchemaName method.name = true

/-- Whether no comment on an element of a file has a carriage return inside a line. -/
def FileNode.Commented (file : FileNode) : Prop := ∀ path, Emit.Plain (file.comment? path)

theorem FileNode.commented_of_locations {file : FileNode}
    (h : ∀ location ∈ file.decl.locations, Emit.Plain location.leading) : file.Commented := by
  intro path comment hComment
  rw [comment?_eq, FileDecl.leading?] at hComment
  obtain ⟨leading, hLeading, hSome⟩ := List.mem_filterMap.mp (List.mem_of_getLast? hComment)
  obtain ⟨location, hLocation, rfl⟩ := List.mem_map.mp hLeading
  exact h location (List.mem_filter.mp hLocation).1 comment hSome

/-! ### Types and constants -/

theorem isSchemaName_enumPrefix {file : FileDecl} (h : file.TypesNamed) {e : EnumNode} (hE : e ∈ file.enumNodes) :
    e.constantPrefix = "" ∨ isSchemaName e.constantPrefix = true := by
  refine isSchemaName_constantPrefix (h.enums e hE) (h.enumPath hE).2 ?_
  intro hParent
  rcases List.mem_append.mp hE with hOuter | hNested
  · obtain ⟨i, hBound, rfl⟩ := List.mem_mapIdx.mp hOuter
    exact absurd rfl hParent
  · obtain ⟨node, hNode, hMem⟩ := List.mem_flatMap.mp hNested
    obtain ⟨i, hBound, rfl⟩ := List.mem_mapIdx.mp hMem
    rw [List.dropLast_concat]
    exact (h.messagePath hNode).1

theorem isDeclarable_nameConstants {stem : String} (hStem : stem = "" ∨ isSchemaName stem = true)
    {values : List EnumValueDecl} (h : ∀ value ∈ values, isSchemaName value.name = true) (used : List String) :
    ∀ constant ∈ (nameConstants stem used values).1, isDeclarable constant = true := by
  induction values generalizing used with
  | nil => exact fun constant hMem => absurd hMem List.not_mem_nil
  | cons value rest ih =>
    obtain ⟨hValue, hRest⟩ := List.forall_mem_cons.mp h
    rw [nameConstants]
    exact List.forall_mem_cons.mpr ⟨isDeclarable_constant used hStem hValue, ih hRest _⟩

/-- An enum with constants is one of those without, and its constants can be declared. -/
theorem exists_enum_of_nameEnums {enums : List EnumNode}
    (hStem : ∀ e ∈ enums, e.constantPrefix = "" ∨ isSchemaName e.constantPrefix = true)
    (hValues : ∀ e ∈ enums, ∀ value ∈ e.decl.values, isSchemaName value.name = true) (used : List String) :
    ∀ e ∈ nameEnums used enums, (∃ first ∈ enums, e.typeName = first.typeName) ∧
      ∀ constant ∈ e.constants, isDeclarable constant = true := by
  induction enums generalizing used with
  | nil => exact fun e hE => absurd hE List.not_mem_nil
  | cons first rest ih =>
    obtain ⟨hStemFirst, hStemRest⟩ := List.forall_mem_cons.mp hStem
    obtain ⟨hFirst, hRest⟩ := List.forall_mem_cons.mp hValues
    rw [nameEnums]
    refine List.forall_mem_cons.mpr ⟨⟨⟨first, List.mem_cons_self, rfl⟩, ?_⟩, ?_⟩
    · exact isDeclarable_nameConstants hStemFirst hFirst used
    · intro e hE
      obtain ⟨⟨other, hOther, hName⟩, hConstants⟩ := ih hStemRest hRest _ e hE
      exact ⟨⟨other, List.mem_cons_of_mem _ hOther, hName⟩, hConstants⟩

theorem FileDecl.Named.enum {file : FileDecl} (h : file.Named) {e : EnumNode} (hE : e ∈ nameEnums [] file.enumNodes) :
    isDeclarable (typePathName e.typeName) = true ∧ ∀ constant ∈ e.constants, isDeclarable constant = true := by
  obtain ⟨⟨first, hFirst, hName⟩, hConstants⟩ :=
    exists_enum_of_nameEnums (fun e => isSchemaName_enumPrefix h.types) h.values [] e hE
  obtain ⟨hNe, hPath⟩ := h.types.enumPath hFirst
  rw [hName]
  exact ⟨isDeclarable_typePathName hNe hPath, hConstants⟩

theorem FileDecl.Named.message {file : FileDecl} (h : file.Named) {node : MessageNode}
    (hNode : node ∈ file.messageNodes) :
    isDeclarable (typePathName node.typeName) = true := by
  obtain ⟨hNe, hPath⟩ := h.types.messagePath hNode
  exact isDeclarable_typePathName hNe hPath

/-! ### Symbols -/

section

variable {files : List FileDecl} {names : List String} {params : Parameters} {g : Graph} {index : NameIndex}
  (hPrepare : Graph.prepare files names params = .ok (g, index)) (hNamed : ∀ file ∈ files, file.Named)
include hPrepare hNamed

/-- A file behind all stages has the messages and the enums of a named file. -/
theorem Graph.named_of_prepare {place : Nat} {file : FileNode} (hFile : g.file? place = some file) :
    file.decl.Named ∧ file.messages = file.decl.messageNodes ∧ file.enums = nameEnums [] file.decl.enumNodes := by
  obtain ⟨hDecl, hMessages, hEnums⟩ := exists_decl_of_prepare hPrepare hFile
  exact ⟨hNamed _ (List.mem_of_getElem? hDecl), hMessages, hEnums⟩

theorem Graph.isDeclarable_message {file place : Nat} {m : MessageNode} (h : g.message? file place = some m) :
    isDeclarable (typePathName m.typeName) = true := by
  obtain ⟨source, hSource, hM⟩ := Option.bind_eq_some_iff.mp h
  obtain ⟨hDecl, hMessages, -⟩ := named_of_prepare hPrepare hNamed hSource
  exact hDecl.message (hMessages ▸ List.mem_of_getElem? hM)

theorem Graph.isDeclarable_enum {file place : Nat} {e : EnumNode} (h : g.enum? file place = some e) :
    isDeclarable (typePathName e.typeName) = true ∧ ∀ constant ∈ e.constants, isDeclarable constant = true := by
  obtain ⟨source, hSource, hE⟩ := Option.bind_eq_some_iff.mp h
  obtain ⟨hDecl, -, hEnums⟩ := named_of_prepare hPrepare hNamed hSource
  exact hDecl.enum (hEnums ▸ List.mem_of_getElem? hE)

/-- What a symbol is called can be declared. -/
theorem Graph.isDeclarable_exportedNames : ∀ s : Symbol, ∀ name ∈ g.exportedNames s, isDeclarable name = true
  | .message file place => by
    intro name hName
    rw [exportedNames] at hName
    cases hMessage : g.message? file place with
    | none =>
      rw [hMessage] at hName
      cases hName
    | some m =>
      rw [hMessage] at hName
      rw [List.mem_singleton.mp hName]
      exact isDeclarable_message hPrepare hNamed hMessage
  | .enum file place => by
    intro name hName
    rw [exportedNames] at hName
    cases hEnum : g.enum? file place with
    | none =>
      rw [hEnum] at hName
      cases hName
    | some e =>
      rw [hEnum] at hName
      obtain ⟨hType, hConstants⟩ := isDeclarable_enum hPrepare hNamed hEnum
      rcases List.mem_cons.mp hName with rfl | hName
      · exact hType
      · exact hConstants name hName
  | .extension file place => fun name hName => absurd hName List.not_mem_nil
  | .imported file target => isDeclarable_exportedNames target

/-- What a symbol of the graph is referred to by can be declared. -/
theorem Graph.isDeclarable_typeName {s : Symbol} (hS : s ∈ g.symbols) :
    isDeclarable (typePathName (g.typeName s)) = true := by
  obtain ⟨file, hFile, hMem⟩ := mem_symbols_iff.mp hS
  rcases ProtoBind.mem_symbols_iff.mp hMem with ⟨place, hSymbol, hPlace⟩ | ⟨place, hSymbol, hPlace⟩
  · have hEnum : g.enum? s.file place = some file.enums[place] :=
      Option.bind_eq_some_iff.mpr ⟨file, hFile, List.getElem?_eq_getElem hPlace⟩
    rw [hSymbol, Graph.typeName, hEnum]
    exact (isDeclarable_enum hPrepare hNamed hEnum).1
  · have hMessage : g.message? s.file place = some file.messages[place] :=
      Option.bind_eq_some_iff.mpr ⟨file, hFile, List.getElem?_eq_getElem hPlace⟩
    rw [hSymbol, Graph.typeName, hMessage]
    exact isDeclarable_message hPrepare hNamed hMessage

end

/-! ### Packages -/

namespace Naming

instance (text : String) : Decidable (IsSymbolOrEmpty text) := inferInstanceAs (Decidable (_ ∧ _))

/-- Whether each part of a path names a module, and so does what the path ends in. -/
def PartsNameModules (path : String) : Prop :=
  ¬ IsSymbolOrEmpty (baseName path) ∧ ∀ part ∈ pathParts path, ¬ IsSymbolOrEmpty part

instance (path : String) : Decidable (PartsNameModules path) := inferInstanceAs (Decidable (_ ∧ _))

instance (name : String) : Decidable (Emit.Passes name) := inferInstanceAs (Decidable (_ ∧ _))

theorem pathParts_below (front path : String) : pathParts (front ++ "/" ++ path) = pathParts front
    ++ pathParts path := by
  have hText : (front ++ "/" ++ path).toList = front.toList ++ '/' :: path.toList := by simp
  rw [pathParts, hText, splitOn_append_sep, List.map_append, List.filter_append, pathParts, pathParts]

theorem passes_moduleSegments {path : String} (h : ∀ part ∈ pathParts path, ¬ IsSymbolOrEmpty part) :
    ∀ s ∈ moduleSegments path, Emit.Passes s := by
  intro s hS
  obtain ⟨i, hBound, rfl⟩ := List.mem_iff_getElem.mp hS
  rcases segmentOf_moduleSegments (List.getElem?_eq_getElem hBound) with ⟨-, hRoot⟩ | ⟨part, hPart, hName, -⟩
  · exact (by decide : ∀ root ∈ pathRoots, Emit.Passes root) _ hRoot
  · have hModules := h part (List.mem_of_getElem? hPart)
    rw [hName]
    exact Emit.passes_of_isDeclarable (isDeclarable_moduleName (mt moduleName_eq_underscore_iff.mp hModules))

end Naming

namespace Emit

theorem passes_routerSegments : ∀ s ∈ Parameters.routerSegments {}, Passes s := by decide

theorem passes_packageSegments {importPath : String} (h : PartsNameModules importPath) :
    Parameters.packageSegments {} importPath ≠ [] ∧ ∀ s ∈ Parameters.packageSegments {} importPath, Passes s := by
  unfold Parameters.packageSegments
  split
  · exact ⟨List.append_ne_nil_of_right_ne_nil _ (List.cons_ne_nil _ _),
      List.forall_mem_append.mpr ⟨passes_routerSegments, by decide⟩⟩
  · have hParts : pathParts ("crate/" ++ importPath) = "crate" :: pathParts importPath :=
      pathParts_below "crate" importPath
    constructor
    · intro hNil
      have hLength := congrArg List.length hNil
      rw [moduleSegments, List.length_mapIdx] at hLength
      exact absurd (hParts.symm.trans (List.eq_nil_of_length_eq_zero hLength)) (List.cons_ne_nil _ _)
    · refine passes_moduleSegments ?_
      change ∀ part ∈ pathParts ("crate/" ++ importPath), _
      rw [hParts]
      exact List.forall_mem_cons.mpr ⟨by decide, h.2⟩

section

variable {names : LocalNames} (hNames : ∃ importPaths, names = .ofPaths importPaths)
  (hModules : ∀ path ∈ names.paths, PartsNameModules path)
include hNames hModules

/-- Packages behind paths whose parts name modules have local names that can be declared. -/
theorem packagesNamed : PackagesNamed {} names := by
  obtain ⟨importPaths, rfl⟩ := hNames
  simp only [LocalNames.mem_paths_ofPaths] at hModules
  rintro ⟨importPath, name⟩ hEntry
  obtain ⟨hPath, hName⟩ := isDeclarable_ofPaths (fun path hMem =>
      mt moduleName_eq_underscore_iff.mp (hModules path hMem).1)
    (importPath, name) (mem_of_entryAt? (LocalNames.mem_toList_iff.mp hEntry))
  exact ⟨hName, passes_packageSegments (hModules importPath hPath)⟩

theorem isDeclarable_get {importPath : String} (hPath : importPath ∈ names.paths) :
    isDeclarable (names.get importPath) = true := by
  have hPackages := packagesNamed hNames hModules
  obtain ⟨importPaths, rfl⟩ := hNames
  obtain ⟨name, hName⟩ := LocalNames.exists_get?_ofPaths (LocalNames.mem_paths_ofPaths.mp hPath)
  rw [LocalNames.get, hName]
  exact (hPackages (importPath, name) (LocalNames.mem_toList_iff.mpr hName)).1

end

/-! ### References -/

section

variable {files : List FileDecl} {generate : List String} {params : Parameters} {scope : Scope} {names : LocalNames}
  (hPrepare : Graph.prepare files generate params = .ok (scope.graph, scope.index))
  (hNamed : ∀ file ∈ files, file.Named)
include hPrepare hNamed

/-- What a type name leads to can be written where its package has a local name. -/
theorem named_of_resolve {typeName : String} {r : Reference} (h : scope.resolve typeName = .ok r)
    (hNames : ∃ importPaths, names = .ofPaths importPaths) (hModules : ∀ path ∈ names.paths, PartsNameModules path)
    (hPackages : r.packages ⊆ names.paths) : r.Named names := by
  obtain ⟨hGet, hRefer⟩ := resolve_eq_ok_iff.mp h
  have hSymbol := (Graph.prepared_of_prepare hPrepare).found _ _ hGet
  constructor
  · rw [hRefer]
    exact Graph.isDeclarable_typeName hPrepare hNamed hSymbol
  · intro importPath hHome
    have hMem : importPath ∈ r.packages := by
      rw [Reference.packages, hHome]
      exact List.mem_singleton_self importPath
    exact isDeclarable_get hNames hModules (hPackages hMem)

theorem ModelFile.named_of_mem {model : ModelFile} (h : ofScope scope = .ok model)
    (hModules : ∀ path ∈ model.names.paths, PartsNameModules path) : ∀ r ∈ model.references, r.Named model.names := by
  intro r hR
  obtain ⟨typeName, hResolve⟩ := exists_resolve h hR
  exact named_of_resolve hPrepare hNamed hResolve (exists_names h) hModules fun path hPath =>
    (mem_paths h).mpr (.inr ⟨r, hR, hPath⟩)

theorem ApiFile.named_of_mem {rules : Http.Rules} {api : ApiFile} (h : ofScope scope rules = .ok api)
    (hModules : ∀ path ∈ api.names.paths, PartsNameModules path) : ∀ r ∈ api.references, r.Named api.names := by
  intro r hR
  obtain ⟨typeName, hResolve⟩ := exists_resolve h hR
  exact named_of_resolve hPrepare hNamed hResolve (exists_names h) hModules fun path hPath =>
    (mem_paths h).mpr ⟨r, hR, hPath⟩

end

end Emit

end ProtoBind
