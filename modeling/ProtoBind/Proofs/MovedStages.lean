import ProtoBind.Proofs.ExactArena
import ProtoBind.Proofs.IndexLookup

/-!
# Stages of renumbered graphs

The stages behind the packages take a graph whose files stand in other places where they take the graph
itself: names lead to the same files, and each file passes on the same symbols.
-/

set_option autoImplicit false

namespace ProtoBind

theorem Alike.eq {α : Type} {x y : Except Error α} (h : Alike Eq x y) : x = y := by
  cases h with
  | error e => rfl
  | ok hSame => rw [hSame]

/-! ### What the stages give -/

def FileDecl.located (names : List String) (params : Parameters) (file : FileDecl) : FileNode :=
  { file.node names with importPath := (file.node names).chooseImportPath params }

def FileDecl.packaged (names : List String) (params : Parameters) (files : List FileDecl)
    (file : FileDecl) : FileNode :=
  { file.located names params with
    packageName := (file.located names params).choosePackageName params
      (files.map (FileDecl.located names params)) }

namespace Graph

def selecting (files : List FileDecl) (names : List String) : Graph :=
  let graph : Graph := ⟨files.map (FileDecl.node names), []⟩
  { graph with toGenerate := names.filterMap graph.fileByName? }

def resolved (files : List FileDecl) (names : List String) (params : Parameters) : Graph :=
  (selecting files names).withPackages params

theorem files_resolved (files : List FileDecl) (names : List String) (params : Parameters) :
    (resolved files names params).files = files.map (FileDecl.packaged names params files) := by
  simp only [resolved, selecting, withPackages, List.map_map]
  rfl

theorem imported_resolved {files : List FileDecl} {names : List String} {params : Parameters} :
    ∀ file ∈ (resolved files names params).files, file.imported = [] := by
  intro file hFile
  rw [files_resolved] at hFile
  obtain ⟨decl, -, rfl⟩ := List.mem_map.mp hFile
  rfl

theorem isNone_fileByName? (files : List FileDecl) (names : List String) (name : String) :
    (fileByName? ⟨files.map (FileDecl.node names), []⟩ name).isNone = !files.any (·.name == name) := by
  rw [← get?_names_ofDecls]
  exact (Arena.names_ofDecls files names name).2

theorem ofFiles_ok_iff {files : List FileDecl} {names : List String} {g : Graph} :
    ofFiles files names = .ok g ↔
      names ≠ [] ∧ (∀ name ∈ names, ∃ file ∈ files, file.name = name) ∧ g = selecting files names := by
  have hMissing : (∀ name ∈ names, ¬(fileByName? ⟨files.map (FileDecl.node names), []⟩ name).isNone = true) ↔
      ∀ name ∈ names, ∃ file ∈ files, file.name = name := by
    simp only [isNone_fileByName?, Bool.not_eq_true', Bool.not_eq_false, List.any_eq_true, beq_iff_eq]
  rw [ofFiles_eq, ← hMissing, ← List.find?_eq_none]
  dsimp only
  by_cases hEmpty : names = []
  · subst hEmpty
    exact ⟨nofun, fun h => absurd rfl h.1⟩
  · rw [if_neg (mt List.isEmpty_iff.mp hEmpty)]
    cases names.find? fun name =>
      (fileByName? ⟨files.map (FileDecl.node names), []⟩ name).isNone with
    | some name => exact ⟨nofun, fun h => nomatch h.2.1⟩
    | none => exact ⟨fun h => ⟨hEmpty, rfl, (Except.ok.inj h).symm⟩, fun h => by rw [h.2.2]; rfl⟩

theorem resolvePackages_ok_iff {g last : Graph} {params : Parameters} :
    g.resolvePackages params = .ok last ↔
      (g.withPackages params).checkConsistency = .ok () ∧ last = g.withPackages params := by
  unfold resolvePackages
  dsimp only
  cases (g.withPackages params).checkConsistency with
  | error e => exact ⟨nofun, fun h => nomatch h.1⟩
  | ok _ => exact ⟨fun h => ⟨rfl, (Except.ok.inj h).symm⟩, fun h => by rw [h.2]⟩

def passingOn (g : Graph) (file : FileNode) : FileNode :=
  { file with imported := file.imported ++ (g.publicSymbols file).toOption.getD [] }

theorem exportFiles_ok {g : Graph} {files : List FileNode}
    (h : ∀ file ∈ files, ∃ symbols, g.publicSymbols file = .ok symbols) :
    g.exportFiles files = (files.map g.passingOn, none) := by
  induction files with
  | nil => rfl
  | cons file rest ih =>
    obtain ⟨symbols, hSymbols⟩ := h file List.mem_cons_self
    rw [exportFiles, hSymbols, ih fun other hOther => h other (List.mem_cons_of_mem _ hOther),
      List.map_cons, passingOn, hSymbols]
    rfl

theorem ok_of_exportFiles {g : Graph} {files reached : List FileNode}
    (h : g.exportFiles files = (reached, none)) :
    ∀ file ∈ files, ∃ symbols, g.publicSymbols file = .ok symbols := by
  induction files generalizing reached with
  | nil => exact fun file hFile => absurd hFile List.not_mem_nil
  | cons first rest ih =>
    rw [exportFiles] at h
    cases hSymbols : g.publicSymbols first with
    | error e =>
      rw [hSymbols] at h
      cases h
    | ok symbols =>
      rw [hSymbols] at h
      intro file hFile
      rcases List.mem_cons.mp hFile with rfl | hFile
      · exact ⟨symbols, hSymbols⟩
      · have hNone : (g.exportFiles rest).2 = none := congrArg Prod.snd h
        exact ih (Prod.ext_iff.mpr ⟨rfl, hNone⟩) file hFile

theorem exportPublicImports_ok_iff {g last : Graph} :
    g.exportPublicImports = .ok last ↔
      (∀ file ∈ g.files, ∃ symbols, g.publicSymbols file = .ok symbols) ∧
        last = { g with files := g.files.map g.passingOn } := by
  unfold exportPublicImports exportReachable
  constructor
  · intro h
    cases hRun : g.exportFiles g.files with
    | mk reached fault =>
      cases fault with
      | some e =>
        rw [hRun] at h
        cases h
      | none =>
        have hOk := ok_of_exportFiles hRun
        rw [exportFiles_ok hOk] at h
        exact ⟨hOk, (Except.ok.inj h).symm⟩
  · rintro ⟨hOk, rfl⟩
    rw [exportFiles_ok hOk]

/-- Whether a run comes as far as emission, and with what. -/
theorem prepare_ok_iff {files : List FileDecl} {names : List String} {params : Parameters} {last : Graph}
    {index : NameIndex} :
    prepare files names params = .ok (last, index) ↔
      names ≠ [] ∧ (∀ name ∈ names, ∃ file ∈ files, file.name = name) ∧
        (resolved files names params).checkConsistency = .ok () ∧
        NameIndex.build (resolved files names params).withConstants = .ok index ∧
        (resolved files names params).withConstants.exportPublicImports = .ok last := by
  simp only [prepare, bind_ok_iff, ofFiles_ok_iff, resolvePackages_ok_iff]
  constructor
  · rintro ⟨_, ⟨hNames, hPresent, rfl⟩, _, ⟨hConsistent, rfl⟩, found, hIndex, reached, hExport, hLast⟩
    cases hLast
    exact ⟨hNames, hPresent, hConsistent, hIndex, hExport⟩
  · rintro ⟨hNames, hPresent, hConsistent, hIndex, hExport⟩
    exact ⟨_, ⟨hNames, hPresent, rfl⟩, _, ⟨hConsistent, rfl⟩, index, hIndex, last, hExport, rfl⟩

end Graph

/-! ### Renumbered graphs -/

theorem FileNode.Moved.exports {ρ : Nat → Nat} {a b : FileNode} (h : FileNode.Moved ρ a b) (place : Nat) :
    b.exports (ρ place) = (a.exports place).map (Symbol.renumber ρ) := by
  unfold FileNode.exports
  rw [h.messages, h.enums, h.decl, List.map_append, List.map_append, List.map_map, List.map_map,
    List.map_map]
  rfl

namespace Graph.Moved

variable {ρ : Nat → Nat} {g k : Graph} (h : Graph.Moved ρ g k)
  (hNames : ∀ name, k.fileByName? name = (g.fileByName? name).map ρ)
include h hNames

theorem publicSymbols {a b : FileNode} (hFile : FileNode.Moved ρ a b) :
    Alike (fun x y => y = x.map (Symbol.renumber ρ)) (g.publicSymbols a) (k.publicSymbols b) := by
  -- Both graphs look a name up in the same list of names, so they fail together.
  have hDependency : ∀ index, Alike (fun x y => y = ρ x) (g.dependency a index) (k.dependency b index) := by
    intro index
    unfold Graph.dependency
    rw [hFile.decl]
    dsimp only
    cases (if 0 ≤ index then a.decl.imports[index.toNat]? else none) with
    | none => exact .error _
    | some name =>
      rw [Option.bind_some, Option.bind_some, hNames]
      cases g.fileByName? name with
      | none => exact .error _
      | some place => exact .ok rfl
  have hPlaces : Alike (fun x y => y = x.map ρ) (g.publicDependencies a) (k.publicDependencies b) := by
    unfold Graph.publicDependencies
    rw [hFile.decl]
    refine Alike.imp ?_ (Alike.mapM fun index _ => hDependency index)
    intro xs ys hSame
    induction hSame with
    | nil => rfl
    | cons hHead _ ih => rw [hHead, ih, List.map_cons]
  have hExports : ∀ place, ((k.file? (ρ place)).map (·.exports (ρ place))).getD []
      = (((g.file? place).map (·.exports place)).getD []).map (Symbol.renumber ρ) := by
    intro place
    have hSame := h.file place
    generalize g.file? place = x at hSame ⊢
    generalize k.file? (ρ place) = y at hSame ⊢
    cases hSame with
    | none => rfl
    | some hMoved => exact hMoved.exports place
  unfold Graph.publicSymbols
  generalize g.publicDependencies a = x at hPlaces ⊢
  generalize k.publicDependencies b = y at hPlaces ⊢
  cases hPlaces with
  | error e => exact .error e
  | @ok places _ hSame =>
    subst hSame
    refine .ok ?_
    rw [List.flatMap_map, List.map_flatMap]
    simp only [hExports]

theorem passingOn {a b : FileNode} (hFile : FileNode.Moved ρ a b) :
    FileNode.Moved ρ (g.passingOn a) (k.passingOn b) := by
  refine ⟨hFile.decl, hFile.messages, hFile.enums, ?_, hFile.importPath, hFile.packageName⟩
  have hSymbols := h.publicSymbols hNames hFile
  unfold Graph.passingOn
  dsimp only
  generalize g.publicSymbols a = x at hSymbols ⊢
  generalize k.publicSymbols b = y at hSymbols ⊢
  cases hSymbols with
  | error e => rw [hFile.imported, List.map_append]; rfl
  | ok hSame => rw [hSame, hFile.imported, List.map_append]; rfl

/-- Where the one graph gets its public imports, the other one gets the same. -/
theorem exportPublicImports (hSurjective : Function.Surjective ρ) {last : Graph}
    (hExport : g.exportPublicImports = .ok last) :
    ∃ other, k.exportPublicImports = .ok other ∧ Graph.Moved ρ last other ∧
      last.toGenerate = g.toGenerate ∧ other.toGenerate = k.toGenerate := by
  obtain ⟨hOk, rfl⟩ := exportPublicImports_ok_iff.mp hExport
  refine ⟨_, exportPublicImports_ok_iff.mpr ⟨?_, rfl⟩, ⟨h.injective, ?_⟩, rfl, rfl⟩
  · intro file hFile
    obtain ⟨target, hTarget⟩ := List.mem_iff_getElem?.mp hFile
    obtain ⟨place, rfl⟩ := hSurjective target
    have hSame := h.file place
    rw [file?, file?, hTarget] at hSame
    cases hPlace : g.files[place]? with
    | none =>
      rw [hPlace] at hSame
      cases hSame
    | some origin =>
      rw [hPlace] at hSame
      cases hSame with
      | some hMoved =>
        obtain ⟨symbols, hSymbols⟩ := hOk origin (List.mem_of_getElem? hPlace)
        have hOther := h.publicSymbols hNames hMoved
        rw [hSymbols] at hOther
        generalize k.publicSymbols file = y at hOther ⊢
        cases hOther with
        | ok _ => exact ⟨_, rfl⟩
  · intro place
    have hSame := h.file place
    rw [file?, file?] at hSame ⊢
    dsimp only
    rw [List.getElem?_map, List.getElem?_map]
    generalize g.files[place]? = x at hSame ⊢
    generalize k.files[ρ place]? = y at hSame ⊢
    cases hSame with
    | none => exact .none
    | some hMoved => exact .some (h.passingOn hNames hMoved)

end Graph.Moved

end ProtoBind
