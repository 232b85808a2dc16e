import ProtoBind.Proofs.Stages

/-!
# Files without comments

A file keeps its comments beside its declarations. Every stage before emission gives the same for a file
with and without them.
-/

set_option autoImplicit false

namespace ProtoBind

theorem mapIdx_map {α β γ : Type} (f : Nat → β → γ) (h : α → β) (items : List α) :
    (items.map h).mapIdx f = items.mapIdx fun i item => f i (h item) := by
  refine List.ext_getElem? ?_
  intro i
  simp [List.getElem?_mapIdx, Function.comp_def]

def FileDecl.silent (file : FileDecl) : FileDecl := { file with locations := [] }

def FileNode.silent (file : FileNode) : FileNode := { file with decl := file.decl.silent }

namespace Graph

def silent (g : Graph) : Graph := { g with files := g.files.map FileNode.silent }

variable (g : Graph)

@[simp] theorem file?_silent (i : Nat) : g.silent.file? i = (g.file? i).map FileNode.silent :=
  List.getElem?_map ..

@[simp] theorem message?_silent (file i : Nat) : g.silent.message? file i = g.message? file i := by
  rw [message?, message?, file?_silent]
  cases g.file? file <;> rfl

@[simp] theorem enum?_silent (file i : Nat) : g.silent.enum? file i = g.enum? file i := by
  rw [enum?, enum?, file?_silent]
  cases g.file? file <;> rfl

@[simp] theorem extension?_silent (file i : Nat) : g.silent.extension? file i = g.extension? file i := by
  rw [extension?, extension?, file?_silent]
  cases g.file? file <;> rfl

@[simp] theorem fileByName?_silent (name : String) : g.silent.fileByName? name = g.fileByName? name := by
  rw [fileByName?_eq, fileByName?_eq, decls, decls, silent, List.map_map]
  simp only [List.length_map, List.getElem?_map, Option.any_map]
  rfl

@[simp] theorem packageOf_silent (file : Nat) : g.silent.packageOf file = g.packageOf file := by
  rw [packageOf, packageOf, file?_silent]
  cases g.file? file <;> rfl

@[simp] theorem importPathOf_silent (file : Nat) : g.silent.importPathOf file = g.importPathOf file := by
  rw [importPathOf, importPathOf, file?_silent]
  cases g.file? file <;> rfl

@[simp] theorem typeName_silent (s : Symbol) : g.silent.typeName s = g.typeName s := by
  induction s with
  | message file i => rw [typeName, typeName, message?_silent]
  | enum file i => rw [typeName, typeName, enum?_silent]
  | extension file i => rw [typeName, typeName, extension?_silent]
  | imported file target ih => rw [typeName, typeName, ih]

@[simp] theorem exportedNames_silent (s : Symbol) : g.silent.exportedNames s = g.exportedNames s := by
  induction s with
  | message file i => rw [exportedNames, exportedNames, message?_silent]
  | enum file i => rw [exportedNames, exportedNames, enum?_silent]
  | extension file i => rfl
  | imported file target ih => rw [exportedNames, exportedNames, ih]

theorem fullName_silent (s : Symbol) : g.silent.fullName s = g.fullName s := by
  rw [fullName, fullName, packageOf_silent, typeName_silent]

theorem symbols_silent : g.silent.symbols = g.symbols := by
  rw [symbols, symbols, silent, mapIdx_map]
  rfl

theorem build_silent : NameIndex.build g.silent = NameIndex.build g := by
  unfold NameIndex.build
  simp only [symbols_silent, fullName_silent]

theorem ofFiles_silent (files : List FileDecl) (names : List String) :
    ofFiles (files.map FileDecl.silent) names = (ofFiles files names).map silent := by
  have hGraph : ∀ toGenerate : List Nat,
      (⟨(files.map FileDecl.silent).map (FileDecl.node names), toGenerate⟩ : Graph)
        = silent ⟨files.map (FileDecl.node names), toGenerate⟩ := by
    intro toGenerate
    simp only [silent, List.map_map]
    rfl
  rw [ofFiles_eq, ofFiles_eq]
  split
  · rfl
  · dsimp only
    rw [hGraph []]
    simp only [fileByName?_silent]
    split
    · rfl
    · exact congrArg Except.ok (hGraph _)

theorem withPackages_silent (params : Parameters) :
    g.silent.withPackages params = (g.withPackages params).silent := by
  have hOption : ∀ (files : List FileNode) (importPath : String),
      optionNameOf? (files.map FileNode.silent) importPath = optionNameOf? files importPath := by
    intro files importPath
    rw [optionNameOf?, List.findSome?_map]
    rfl
  have hName : ∀ (files : List FileNode) (file : FileNode),
      file.silent.choosePackageName params (files.map FileNode.silent)
        = file.choosePackageName params files := by
    intro files file
    unfold FileNode.choosePackageName
    rw [hOption]
    rfl
  have hPaths : (g.silent.files.map fun file => { file with importPath := file.chooseImportPath params })
      = (g.files.map fun file => { file with importPath := file.chooseImportPath params }).map
        FileNode.silent := by
    simp only [silent, List.map_map]
    rfl
  have hFile : ∀ (files : List FileNode) (file : FileNode),
      { file.silent with
        packageName := file.silent.choosePackageName params (files.map FileNode.silent) }
        = ({ file with packageName := file.choosePackageName params files } : FileNode).silent := by
    intro files file
    rw [hName]
    rfl
  unfold withPackages
  dsimp only
  rw [hPaths]
  generalize (g.files.map fun file => { file with importPath := file.chooseImportPath params }) = files
  refine congrArg (fun files => Graph.mk files g.toGenerate) ?_
  rw [List.map_map, List.map_map]
  exact List.map_congr_left fun file _ => hFile files file

theorem generated_silent : g.silent.generated = g.generated.map FileNode.silent := by
  rw [generated, generated, List.map_filterMap]
  congr 1
  funext place
  exact file?_silent g place

theorem checkConsistency_silent : g.silent.checkConsistency = g.checkConsistency := by
  unfold checkConsistency
  rw [generated_silent]
  cases g.generated with
  | nil => rfl
  | cons first rest =>
    simp only [List.map_cons, List.findSome?_map]
    rfl

theorem resolvePackages_silent (params : Parameters) :
    g.silent.resolvePackages params = (g.resolvePackages params).map silent := by
  unfold resolvePackages
  rw [withPackages_silent]
  dsimp only
  rw [checkConsistency_silent]
  cases (g.withPackages params).checkConsistency <;> rfl

theorem withConstants_silent : g.silent.withConstants = g.withConstants.silent := by
  simp only [withConstants, silent, List.map_map]
  rfl

theorem publicSymbols_silent (file : FileNode) :
    g.silent.publicSymbols file.silent = g.publicSymbols file := by
  have hPlaces : g.silent.publicDependencies file.silent = g.publicDependencies file := by
    unfold publicDependencies dependency
    simp only [show g.silent.fileByName? = g.fileByName? from funext g.fileByName?_silent]
    rfl
  have hExports : ∀ place, ((g.silent.file? place).map (·.exports place)).getD []
      = ((g.file? place).map (·.exports place)).getD [] := by
    intro place
    rw [file?_silent]
    cases g.file? place <;> rfl
  unfold publicSymbols
  simp only [hPlaces, hExports]

theorem exportFiles_silent (files : List FileNode) :
    g.silent.exportFiles (files.map FileNode.silent)
      = ((g.exportFiles files).1.map FileNode.silent, (g.exportFiles files).2) := by
  induction files with
  | nil => rfl
  | cons file rest ih =>
    rw [List.map_cons, exportFiles, exportFiles, publicSymbols_silent]
    cases g.publicSymbols file with
    | error e => rfl
    | ok symbols =>
      dsimp only
      rw [ih]
      rfl

theorem exportPublicImports_silent :
    g.silent.exportPublicImports = g.exportPublicImports.map silent := by
  have hReachable : g.silent.exportReachable = (g.exportReachable.1.silent, g.exportReachable.2) := by
    unfold exportReachable
    rw [show g.silent.files = g.files.map FileNode.silent from rfl, exportFiles_silent]
    rfl
  unfold exportPublicImports
  rw [hReachable]
  obtain ⟨reached, _ | e⟩ := g.exportReachable <;> rfl

/-- The stages before emission take files without comments where they take the files themselves. -/
theorem prepare_silent (files : List FileDecl) (names : List String) (params : Parameters) :
    prepare (files.map FileDecl.silent) names params
      = (prepare files names params).map fun prepared => (prepared.1.silent, prepared.2) := by
  unfold prepare
  rw [ofFiles_silent]
  cases ofFiles files names with
  | error e => rfl
  | ok first =>
    simp only [Except.map, bind, Except.bind, resolvePackages_silent]
    cases first.resolvePackages params with
    | error e => rfl
    | ok resolved =>
      simp only [withConstants_silent, build_silent, exportPublicImports_silent]
      cases NameIndex.build resolved.withConstants with
      | error e => rfl
      | ok index =>
        dsimp only
        cases resolved.withConstants.exportPublicImports <;> rfl

end Graph

end ProtoBind
