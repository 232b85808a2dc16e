import ProtoBind.Proofs.FileOrder

/-!
# What public imports pass on

A file passes on what the files that it imports publicly define themselves, and nothing that these pass on. The symbols
are added to the graph while its files are visited, but no visit sees what an earlier one has added.
-/

set_option autoImplicit false

namespace ProtoBind

/-! ### Symbols -/

namespace Symbol

def rank : Symbol → Nat
  | .message _ _ => 0
  | .enum _ _ => 1
  | .extension _ _ => 2
  | .imported _ _ => 3

def position : Symbol → Nat
  | .message _ index | .enum _ index | .extension _ index => index
  | .imported _ target => target.position

def Precedes (s t : Symbol) : Prop := s.rank < t.rank ∨ s.rank = t.rank ∧ s.position < t.position

/-- The object that a symbol stands for, if it can be reached through at most that many others. -/
def object? : Nat → Symbol → Option Symbol
  | n + 1, .imported _ target => target.object? n
  | 0, .imported _ _ => none
  | _, s => some s

end Symbol

namespace Graph

/-- A symbol that the file at a place defines for others, and its type name. -/
inductive Defines (g : Graph) (place : Nat) : Symbol → List String → Prop
  | message {file : FileNode} {k : Nat} {m : MessageNode} (hFile : g.file? place = some file)
      (hMessage : file.messages[k]? = some m) (hEntry : m.decl.isMapEntry = false) :
      Defines g place (.message place k) m.typeName
  | enum {file : FileNode} {k : Nat} {e : EnumNode} (hFile : g.file? place = some file)
      (hEnum : file.enums[k]? = some e) : Defines g place (.enum place k) e.typeName
  | extension {file : FileNode} {k : Nat} {field : FieldDecl} (hFile : g.file? place = some file)
      (hField : file.decl.extensions[k]? = some field) : Defines g place (.extension place k) [field.name]

/-- All that the file at a place defines for others, each once and in order. -/
structure IsBlock (g : Graph) (place : Nat) (block : List Symbol) : Prop where
  members : ∀ s, s ∈ block ↔ ∃ name, g.Defines place s name
  ordered : block.Pairwise Symbol.Precedes

/-! ### Indices -/

def NamesFile (g : Graph) (file : FileNode) (index : Int) : Prop :=
  ∃ (i : Nat) (name : String), index = i ∧ file.decl.imports[i]? = some name ∧
      ∃ source ∈ g.files, source.decl.name = name

/-- An index leads to the last file with the name that it stands for. -/
def LeadsTo (g : Graph) (file : FileNode) (index : Int) (place : Nat) : Prop :=
  ∃ (i : Nat) (name : String) (source : FileNode), index = i ∧ file.decl.imports[i]? = some name ∧
    g.file? place = some source ∧ source.decl.name = name ∧
    ∀ later other, place < later → g.file? later = some other → other.decl.name ≠ name

/-- The error for an index that stands for a name that no file has, or for none at all. -/
inductive Misnames (g : Graph) (file : FileNode) : Int → Error → Prop
  | unknown {i : Nat} {name : String} (hName : file.decl.imports[i]? = some name)
      (hNone : ∀ source ∈ g.files, source.decl.name ≠ name) :
      Misnames g file i (.dependencyNotFound name file.decl.name)
  | outside {index : Int} (hOutside : ∀ i : Nat, index = i → file.decl.imports.length ≤ i) :
      Misnames g file index (.dependencyNotFound ("#" ++ toString index) file.decl.name)

theorem getLast?_filter_range_eq_some_iff {p : Nat → Bool} {n k : Nat} :
    ((List.range n).filter p).getLast? = some k ↔ k < n ∧ p k = true ∧ ∀ j, k < j → j < n → p j = false := by
  induction n with
  | zero => simp
  | succ n ih =>
    rw [List.range_succ, List.filter_append, List.filter_singleton]
    cases hLast : p n with
    | true =>
      rw [cond_true, List.getLast?_append, List.getLast?_singleton, Option.some_or, Option.some.injEq]
      constructor
      · rintro rfl
        exact ⟨Nat.lt_succ_self _, hLast, fun j hAbove hBelow => by omega⟩
      · rintro ⟨hBelow, -, hNone⟩
        by_contra hOther
        have := hNone n (by omega) (Nat.lt_succ_self n)
        rw [hLast] at this
        cases this
    | false =>
      rw [cond_false, List.append_nil, ih]
      constructor
      · rintro ⟨hBelow, hFound, hNone⟩
        refine ⟨by omega, hFound, fun j hAbove hLess => ?_⟩
        rcases Nat.lt_succ_iff_lt_or_eq.mp hLess with hLess | rfl
        · exact hNone j hAbove hLess
        · exact hLast
      · rintro ⟨hBelow, hFound, hNone⟩
        have hOther : k ≠ n := by
          rintro rfl
          rw [hLast] at hFound
          cases hFound
        exact ⟨by omega, hFound, fun j hAbove hLess => hNone j hAbove (by omega)⟩

theorem fileByName?_eq_some_iff {g : Graph} {name : String} {place : Nat} : g.fileByName? name = some place ↔
    ∃ source, g.file? place = some source ∧ source.decl.name = name ∧
      ∀ later other, place < later → g.file? later = some other → other.decl.name ≠ name := by
  have hBelow : ∀ {i : Nat} {source : FileNode}, g.file? i = some source → i < g.files.length := by
    intro i source hFile
    exact (List.getElem?_eq_some_iff.mp hFile).1
  rw [fileByName?, getLast?_filter_range_eq_some_iff]
  simp only [Option.any_eq_true, Option.any_eq_false, beq_iff_eq, beq_eq_false_iff_ne]
  constructor
  · rintro ⟨-, ⟨source, hFile, hName⟩, hNone⟩
    exact ⟨source, hFile, hName, fun later other hLater hOther => hNone later hLater (hBelow hOther) other hOther⟩
  · rintro ⟨source, hFile, hName, hNone⟩
    exact ⟨hBelow hFile, ⟨source, hFile, hName⟩, fun later hLater _ other hOther => hNone later other hLater hOther⟩

variable {g : Graph} {file : FileNode} {index : Int}

theorem LeadsTo.dependency {place : Nat} (h : g.LeadsTo file index place) : g.dependency file index = .ok place := by
  obtain ⟨i, name, source, rfl, hName, hFile, hSource, hLast⟩ := h
  rw [Graph.dependency, if_pos (Int.natCast_nonneg i), Int.toNat_natCast, hName, Option.bind_some,
    fileByName?_eq_some_iff.mpr ⟨source, hFile, hSource, hLast⟩]

theorem Misnames.dependency {e : Error} (h : g.Misnames file index e) : g.dependency file index = .error e := by
  cases h with
  | @unknown i name hName hNone =>
    rw [Graph.dependency, if_pos (Int.natCast_nonneg i), Int.toNat_natCast, hName, Option.bind_some,
      fileByName?_eq_none_iff.mpr hNone]
    rfl
  | outside hOutside =>
    have hNone : (if 0 ≤ index then file.decl.imports[index.toNat]? else none) = none := by
      split
      · rename_i hSign
        exact List.getElem?_eq_none_iff.mpr (hOutside index.toNat (Int.toNat_of_nonneg hSign).symm)
      · rfl
    rw [Graph.dependency, hNone]
    rfl

theorem leadsTo_or_misnames (g : Graph) (file : FileNode) (index : Int) :
    (∃ place, g.LeadsTo file index place) ∨ ∃ e, g.Misnames file index e := by
  by_cases hName : ∃ (i : Nat) (name : String), index = i ∧ file.decl.imports[i]? = some name
  · obtain ⟨i, name, rfl, hName⟩ := hName
    cases hPlace : g.fileByName? name with
    | none => exact .inr ⟨_, .unknown hName (fileByName?_eq_none_iff.mp hPlace)⟩
    | some place =>
      obtain ⟨source, hFile, hSource, hLast⟩ := fileByName?_eq_some_iff.mp hPlace
      exact .inl ⟨place, i, name, source, rfl, hName, hFile, hSource, hLast⟩
  · refine .inr ⟨_, .outside fun i hIndex => ?_⟩
    by_contra hInside
    exact hName ⟨i, _, hIndex, List.getElem?_eq_getElem (by omega)⟩

theorem dependency_ok_iff {place : Nat} : g.dependency file index = .ok place ↔ g.LeadsTo file index place := by
  refine ⟨fun h => ?_, LeadsTo.dependency⟩
  obtain ⟨found, hFound⟩ | ⟨e, hFault⟩ := g.leadsTo_or_misnames file index
  · rw [hFound.dependency] at h
    cases h
    exact hFound
  · rw [hFault.dependency] at h
    cases h

theorem failure?_dependency_eq_some_iff {e : Error} :
    failure? (g.dependency file index) = some e ↔ g.Misnames file index e := by
  rw [failure?_eq_some_iff]
  refine ⟨fun h => ?_, Misnames.dependency⟩
  obtain ⟨found, hFound⟩ | ⟨other, hFault⟩ := g.leadsTo_or_misnames file index
  · rw [hFound.dependency] at h
    cases h
  · rw [hFault.dependency] at h
    cases h
    exact hFault

theorem failure?_dependency_eq_none_iff : failure? (g.dependency file index) = none ↔ g.NamesFile file index := by
  simp only [failure?_eq_none_iff, dependency_ok_iff]
  constructor
  · rintro ⟨place, i, name, source, hIndex, hName, hFile, hSource, -⟩
    exact ⟨i, name, hIndex, hName, source, List.mem_of_getElem? hFile, hSource⟩
  · rintro ⟨i, name, rfl, hName, source, hMem, hSource⟩
    cases hPlace : g.fileByName? name with
    | none => exact absurd hSource (fileByName?_eq_none_iff.mp hPlace source hMem)
    | some place =>
      obtain ⟨last, hFile, hLast, hNone⟩ := fileByName?_eq_some_iff.mp hPlace
      exact ⟨place, i, name, last, rfl, hName, hFile, hLast, hNone⟩

/-! ### The first index that is wrong -/

/-- The error for the first index that names no file of the request, in the first file with such an index. -/
def FirstMisnamed (g : Graph) (e : Error) : Prop :=
  ∃ before file after fine index rest, g.files = before ++ file :: after ∧
    file.decl.publicImports = fine ++ index :: rest ∧
    (∀ earlier ∈ before, ∀ other ∈ earlier.decl.publicImports, g.NamesFile earlier other) ∧
    (∀ other ∈ fine, g.NamesFile file other) ∧ g.Misnames file index e

theorem failure?_publicSymbols (g : Graph) (file : FileNode) : failure? (g.publicSymbols file) =
    file.decl.publicImports.findSome? fun index => failure? (g.dependency file index) := by
  rw [← failure?_mapM]
  unfold publicSymbols publicDependencies
  cases file.decl.publicImports.mapM (g.dependency file) <;> rfl

theorem exportFiles_snd (g : Graph) (files : List FileNode) :
    (g.exportFiles files).2 = files.findSome? fun file => failure? (g.publicSymbols file) := by
  induction files with
  | nil => rfl
  | cons file rest ih =>
    rw [exportFiles, List.findSome?_cons, ← ih]
    cases g.publicSymbols file <;> rfl

theorem failure?_exportPublicImports (g : Graph) :
    failure? g.exportPublicImports = g.files.findSome? fun file => failure? (g.publicSymbols file) := by
  rw [← exportFiles_snd]
  unfold exportPublicImports exportReachable
  obtain ⟨files, _ | e⟩ := g.exportFiles g.files <;> rfl

theorem failure?_publicSymbols_eq_none_iff :
    failure? (g.publicSymbols file) = none ↔ ∀ index ∈ file.decl.publicImports, g.NamesFile file index := by
  rw [failure?_publicSymbols, List.findSome?_eq_none_iff]
  simp only [failure?_dependency_eq_none_iff]

theorem exists_exportPublicImports_iff (g : Graph) : (∃ last, g.exportPublicImports = .ok last) ↔
    ∀ file ∈ g.files, ∀ index ∈ file.decl.publicImports, g.NamesFile file index := by
  rw [← failure?_eq_none_iff, failure?_exportPublicImports, List.findSome?_eq_none_iff]
  simp only [failure?_publicSymbols_eq_none_iff]

theorem exportPublicImports_error_iff (g : Graph) (e : Error) :
    g.exportPublicImports = .error e ↔ g.FirstMisnamed e := by
  rw [← failure?_eq_some_iff, failure?_exportPublicImports, List.findSome?_eq_some_iff]
  simp only [failure?_publicSymbols_eq_none_iff]
  constructor
  · rintro ⟨before, file, after, hFiles, hFault, hBefore⟩
    rw [failure?_publicSymbols, List.findSome?_eq_some_iff] at hFault
    obtain ⟨fine, index, rest, hIndices, hIndex, hFine⟩ := hFault
    exact ⟨before, file, after, fine, index, rest, hFiles, hIndices, hBefore,
      fun other hOther => failure?_dependency_eq_none_iff.mp (hFine other hOther),
      failure?_dependency_eq_some_iff.mp hIndex⟩
  · rintro ⟨before, file, after, fine, index, rest, hFiles, hIndices, hBefore, hFine, hIndex⟩
    refine ⟨before, file, after, hFiles, ?_, hBefore⟩
    rw [failure?_publicSymbols, List.findSome?_eq_some_iff]
    exact ⟨fine, index, rest, hIndices, failure?_dependency_eq_some_iff.mpr hIndex,
      fun other hOther => failure?_dependency_eq_none_iff.mpr (hFine other hOther)⟩

/-! ### What a file passes on -/

theorem mem_exports_iff {place : Nat} {source : FileNode} (hSource : g.file? place = some source) (s : Symbol) :
    s ∈ source.exports place ↔ ∃ name, g.Defines place s name := by
  simp only [FileNode.exports, List.mem_append, List.mem_map, List.mem_filter, List.mem_range, Option.any_eq_true,
    Bool.not_eq_true']
  constructor
  · rintro ((⟨k, ⟨-, m, hMessage, hEntry⟩, rfl⟩ | ⟨k, hBelow, rfl⟩) | ⟨k, hBelow, rfl⟩)
    · exact ⟨_, .message hSource hMessage hEntry⟩
    · exact ⟨_, .enum hSource (List.getElem?_eq_getElem hBelow)⟩
    · exact ⟨_, .extension hSource (List.getElem?_eq_getElem hBelow)⟩
  · rintro ⟨name, hDefines⟩
    have hSame : ∀ {file : FileNode}, g.file? place = some file → file = source := by
      intro file hFile
      exact Option.some.inj (hFile.symm.trans hSource)
    cases hDefines with
    | message hFile hMessage hEntry =>
      cases hSame hFile
      exact .inl (.inl ⟨_, ⟨(List.getElem?_eq_some_iff.mp hMessage).1, _, hMessage, hEntry⟩, rfl⟩)
    | enum hFile hEnum =>
      cases hSame hFile
      exact .inl (.inr ⟨_, (List.getElem?_eq_some_iff.mp hEnum).1, rfl⟩)
    | extension hFile hField =>
      cases hSame hFile
      exact .inr ⟨_, (List.getElem?_eq_some_iff.mp hField).1, rfl⟩

theorem pairwise_precedes_map {build : Nat → Symbol} {ks : List Nat} (hPosition : ∀ k, (build k).position = k)
    (hRank : ∀ j k, (build j).rank = (build k).rank) (hLess : ks.Pairwise (· < ·)) :
    (ks.map build).Pairwise Symbol.Precedes := by
  refine List.pairwise_map.mpr (hLess.imp fun {j k} hBefore => .inr ⟨hRank j k, ?_⟩)
  rw [hPosition, hPosition]
  exact hBefore

theorem pairwise_exports (source : FileNode) (place : Nat) : (source.exports place).Pairwise Symbol.Precedes := by
  unfold FileNode.exports
  refine List.pairwise_append.mpr ⟨List.pairwise_append.mpr ⟨?_, ?_, ?_⟩, ?_, ?_⟩
  · exact pairwise_precedes_map (fun _ => rfl) (fun _ _ => rfl) (List.pairwise_lt_range.filter _)
  · exact pairwise_precedes_map (fun _ => rfl) (fun _ _ => rfl) List.pairwise_lt_range
  · intro s hMessage t hEnum
    obtain ⟨j, -, rfl⟩ := List.mem_map.mp hMessage
    obtain ⟨k, -, rfl⟩ := List.mem_map.mp hEnum
    exact .inl (by decide : 0 < 1)
  · exact pairwise_precedes_map (fun _ => rfl) (fun _ _ => rfl) List.pairwise_lt_range
  · intro s hEarlier t hExtension
    obtain ⟨k, -, rfl⟩ := List.mem_map.mp hExtension
    rcases List.mem_append.mp hEarlier with hMessage | hEnum
    · obtain ⟨j, -, rfl⟩ := List.mem_map.mp hMessage
      exact .inl (by decide : 0 < 2)
    · obtain ⟨j, -, rfl⟩ := List.mem_map.mp hEnum
      exact .inl (by decide : 1 < 2)

theorem isBlock_exports {place : Nat} {source : FileNode} (hSource : g.file? place = some source) :
    g.IsBlock place (source.exports place) :=
  ⟨mem_exports_iff hSource, pairwise_exports source place⟩

/-- What becomes of the file at a place: each of its public imports leads to a file, and gives the block of what that
file defines. -/
structure PassesOn (g last : Graph) (place : Nat) (file : FileNode) (sources : List Nat)
    (blocks : List (List Symbol)) : Prop where
  edges : List.Forall₂ (g.LeadsTo file) file.decl.publicImports sources
  definitions : List.Forall₂ g.IsBlock sources blocks
  after : last.file? place = some { file with imported := file.imported ++ blocks.flatten }
  /-- What is passed on belongs to the file that does so, and one step leads from there to what it stands for. -/
  seen : ∀ s ∈ blocks.flatten, (Symbol.imported place s).file = place ∧ (Symbol.imported place s).object? 1 = some s ∧
    ∃ source ∈ sources, ∃ name, g.Defines source s name ∧ last.typeName (.imported place s) = name

theorem publicSymbols_ok_iff {symbols : List Symbol} : g.publicSymbols file = .ok symbols ↔
    ∃ sources, List.Forall₂ (g.LeadsTo file) file.decl.publicImports sources ∧
      symbols = (sources.map fun place => ((g.file? place).map (·.exports place)).getD []).flatten := by
  have hPlaces : ∀ sources, g.publicDependencies file = .ok sources ↔
      List.Forall₂ (g.LeadsTo file) file.decl.publicImports sources := by
    intro sources
    rw [publicDependencies, mapM_ok_iff]
    simp only [dependency_ok_iff]
  simp only [publicSymbols, ← hPlaces, List.flatMap_def]
  cases g.publicDependencies file with
  | error e => exact ⟨nofun, fun ⟨_, h, _⟩ => nomatch h⟩
  | ok found =>
    constructor
    · intro h
      exact ⟨found, rfl, (Except.ok.inj h).symm⟩
    · rintro ⟨_, hFound, rfl⟩
      cases hFound
      rfl

theorem forall₂_isBlock {indices : List Int} {sources : List Nat} (h : List.Forall₂ (g.LeadsTo file) indices sources) :
    List.Forall₂ g.IsBlock sources (sources.map fun place => ((g.file? place).map (·.exports place)).getD []) := by
  induction h with
  | nil => exact .nil
  | @cons index place indices sources hHead _ ih =>
    obtain ⟨i, name, source, -, -, hSource, -⟩ := hHead
    refine .cons ?_ ih
    dsimp only
    rw [hSource]
    exact isBlock_exports hSource

/-- Names are read off the declarations of files, whatever these pass on. -/
theorem Defines.typeName {last : Graph} {source place : Nat} {s : Symbol} {name : List String}
    (h : g.Defines source s name) (hLast : last = { g with files := g.files.map g.passingOn }) :
    last.typeName (.imported place s) = name := by
  have hFile : ∀ {i : Nat} {file : FileNode}, g.file? i = some file → last.file? i = some (g.passingOn file) := by
    intro i file hFile
    rw [hLast, file?, List.getElem?_map, ← file?, hFile]
    rfl
  cases h with
  | message hSource hMessage => simp [Graph.typeName, message?, hFile hSource, passingOn, hMessage]
  | enum hSource hEnum => simp [Graph.typeName, enum?, hFile hSource, passingOn, hEnum]
  | extension hSource hField => simp [Graph.typeName, extension?, hFile hSource, passingOn, hField]

theorem exists_passesOn {last : Graph} {place : Nat} (h : g.exportPublicImports = .ok last)
    (hFile : g.file? place = some file) : ∃ sources blocks, g.PassesOn last place file sources blocks := by
  obtain ⟨hOk, hLast⟩ := exportPublicImports_ok_iff.mp h
  obtain ⟨symbols, hSymbols⟩ := hOk file (List.mem_of_getElem? hFile)
  obtain ⟨sources, hSources, rfl⟩ := publicSymbols_ok_iff.mp hSymbols
  have hBlocks := forall₂_isBlock hSources
  refine ⟨sources, _, hSources, hBlocks, ?_, fun s hMem => ?_⟩
  · rw [hLast, file?, List.getElem?_map, ← file?, hFile, Option.map_some, passingOn, hSymbols]
    rfl
  · obtain ⟨block, hBlock, hMem⟩ := List.mem_flatten.mp hMem
    obtain ⟨source, hSource, hIs⟩ := exists_of_forall₂_right hBlocks block hBlock
    obtain ⟨name, hDefines⟩ := (hIs.members s).mp hMem
    refine ⟨rfl, ?_, source, hSource, name, hDefines, hDefines.typeName hLast⟩
    cases hDefines <;> rfl

/-! ### The run in place -/

/-- Adds to the file at a place, one by one, the symbols that it passes on in the graph as it is. -/
def exportInto (g : Graph) (place : Nat) : Except Error Graph :=
  match g.file? place with
  | none => .ok g
  | some file =>
    match g.publicSymbols file with
    | .error e => .error e
    | .ok symbols => .ok (symbols.foldl (fun g s => g.addImported place s) g)

/-- Visits the places of a graph in turn, each with what the places before it have got already. -/
def exportInPlace (g : Graph) : Except Error Graph := (List.range g.files.length).foldlM exportInto g

theorem foldl_addImported (g : Graph) (place : Nat) (symbols : List Symbol) :
    symbols.foldl (fun g s => g.addImported place s) g
      = g.modifyFile place fun file => { file with imported := file.imported ++ symbols } := by
  induction symbols generalizing g with
  | nil =>
    simp only [List.foldl_nil, modifyFile, List.append_nil]
    rw [show (fun file : FileNode => { file with imported := file.imported }) = id from rfl, List.modify_id]
  | cons s rest ih =>
    rw [List.foldl_cons, ih, addImported, modifyFile, modifyFile, modifyFile, List.modify_modify_eq]
    simp [Function.comp_def]

def bare (file : FileNode) : FileNode := { file with imported := [] }

/-- What files have got does not change what a file passes on. -/
theorem publicSymbols_congr {k : Graph} (h : k.files.map bare = g.files.map bare) (file : FileNode) :
    k.publicSymbols file = g.publicSymbols file := by
  have hDecls : k.decls = g.decls := by simpa [decls, bare, Function.comp_def] using congrArg (List.map (·.decl)) h
  have hExports : ∀ place, (k.file? place).map (·.exports place) = (g.file? place).map (·.exports place) := by
    intro place
    have hSame := congrArg (fun files => files[place]?.map (·.exports place)) h
    rwa [List.getElem?_map, List.getElem?_map, Option.map_map, Option.map_map] at hSame
  have hDependency : k.dependency file = g.dependency file := by
    funext index
    rw [dependency, dependency, fileByName?_congr hDecls]
  rw [publicSymbols, publicSymbols, publicDependencies, publicDependencies, hDependency]
  simp only [hExports]

theorem bare_passingOn (g : Graph) (file : FileNode) : bare (g.passingOn file) = bare file := rfl

/-- A graph of which some files have got what they pass on, and the others not yet. -/
def visited (g : Graph) (done rest : List FileNode) : Graph := { g with files := done.map g.passingOn ++ rest }

theorem visited_append_singleton (g : Graph) (done : List FileNode) (file : FileNode) (rest : List FileNode) :
    g.visited (done ++ [file]) rest = g.visited done (g.passingOn file :: rest) := by
  rw [visited, visited, List.map_append, List.append_assoc, List.map_singleton, List.singleton_append]

theorem passingOn_of_publicSymbols {symbols : List Symbol} (h : g.publicSymbols file = .ok symbols) :
    g.passingOn file = { file with imported := file.imported ++ symbols } := by
  rw [passingOn, h]
  rfl

theorem exportInto_visited {done rest : List FileNode} (hFiles : g.files = done ++ file :: rest) :
    (g.visited done (file :: rest)).exportInto done.length
      = (g.publicSymbols file).map fun _ => g.visited (done ++ [file]) rest := by
  have hHere : (g.visited done (file :: rest)).file? done.length = some file := by simp [file?, visited]
  have hSymbols : (g.visited done (file :: rest)).publicSymbols file = g.publicSymbols file := by
    apply publicSymbols_congr
    simp [visited, hFiles, Function.comp_def, bare_passingOn]
  rw [exportInto, hHere]
  simp only [hSymbols]
  cases hOwn : g.publicSymbols file with
  | error e => rfl
  | ok symbols =>
    have hLength : done.length = (done.map g.passingOn).length := by rw [List.length_map]
    rw [visited_append_singleton, passingOn_of_publicSymbols hOwn, Except.map]
    dsimp only
    rw [foldl_addImported, modifyFile, hLength, visited, modify_length_append]
    rfl

/-- The visits of the remaining places, after those of the places before them. -/
theorem foldlM_exportInto (done : List FileNode) {rest : List FileNode} (hFiles : g.files = done ++ rest) :
    (List.range' done.length rest.length).foldlM exportInto (g.visited done rest)
      = match g.exportFiles rest with
        | (reached, none) => .ok (g.visited done reached)
        | (_, some e) => .error e := by
  induction rest generalizing done with
  | nil => rfl
  | cons file rest ih =>
    rw [List.length_cons, List.range'_succ, List.foldlM_cons, exportInto_visited hFiles, exportFiles]
    cases hOwn : g.publicSymbols file with
    | error e => rfl
    | ok symbols =>
      have hNext := ih (done ++ [file]) (by rw [hFiles, List.append_assoc, List.singleton_append])
      rw [List.length_append, List.length_singleton] at hNext
      refine hNext.trans ?_
      dsimp only
      rw [← passingOn_of_publicSymbols hOwn]
      obtain ⟨reached, _ | e⟩ := g.exportFiles rest
      · exact congrArg Except.ok (visited_append_singleton g done file reached)
      · rfl

theorem exportInPlace_eq (g : Graph) : g.exportInPlace = g.exportPublicImports := by
  rw [exportInPlace, List.range_eq_range']
  refine (foldlM_exportInto [] rfl).trans ?_
  unfold exportPublicImports exportReachable
  obtain ⟨files, _ | e⟩ := g.exportFiles g.files <;> rfl

/-- Before the stage, no file of a request passes on anything. -/
theorem imported_withConstants_resolved (files : List FileDecl) (names : List String) (params : Parameters) :
    ∀ file ∈ (resolved files names params).withConstants.files, file.imported = [] := by
  intro file hFile
  obtain ⟨before, hBefore, rfl⟩ := List.mem_map.mp hFile
  exact imported_resolved before hBefore

/-- Files pass on exactly what the files define that their public imports lead to, or else the first index that names no
file ends the run. -/
theorem publicImports_exact (g : Graph) :
    ((∃ last, g.exportPublicImports = .ok last) ↔
      ∀ file ∈ g.files, ∀ index ∈ file.decl.publicImports, g.NamesFile file index) ∧
    (∀ e, g.exportPublicImports = .error e ↔ g.FirstMisnamed e) ∧
    (∀ last, g.exportPublicImports = .ok last →
      last.toGenerate = g.toGenerate ∧ last.files.length = g.files.length ∧
      ∀ place file, g.file? place = some file →
        (∃ sources blocks, g.PassesOn last place file sources blocks) ∧
        (file.decl.publicImports = [] → last.file? place = some file)) ∧
    g.exportInPlace = g.exportPublicImports ∧
    ∀ files names params, ∀ file ∈ (resolved files names params).withConstants.files, file.imported = [] := by
  refine ⟨exists_exportPublicImports_iff g, exportPublicImports_error_iff g, fun last hRun => ?_, exportInPlace_eq g,
    imported_withConstants_resolved⟩
  have hLast := (exportPublicImports_ok_iff.mp hRun).2
  refine ⟨by rw [hLast], by rw [hLast, List.length_map], fun place file hFile => ?_⟩
  obtain ⟨sources, blocks, hPasses⟩ := exists_passesOn hRun hFile
  refine ⟨⟨sources, blocks, hPasses⟩, fun hNone => ?_⟩
  obtain ⟨hEdges, hDefinitions, hAfter, -⟩ := hPasses
  rw [hNone] at hEdges
  cases hEdges
  cases hDefinitions
  rw [hAfter, List.flatten_nil, List.append_nil]

/-- Two files that import each other publicly, the second one also itself, and one that imports nothing. -/
def mutualImports : Graph :=
  { files := [
      { decl := { name := "left", imports := ["right"], publicImports := [0] }, generate := true,
        messages := [⟨default, ["Left"], [4, 0], none, false⟩], enums := [] },
      { decl := { name := "right", imports := ["left", "right"], publicImports := [0, 1] }, generate := true,
        messages := [], enums := [⟨{ name := "Right" }, ["Right"], [5, 0], none, []⟩] },
      { decl := { name := "alone" }, generate := false, messages := [], enums := [] }],
    toGenerate := [0, 1] }

theorem publicImports_exact_mutualImports : ∃ last, mutualImports.exportPublicImports = .ok last ∧
    last.files.map (·.imported) = [[.enum 1 0], [.message 0 0, .enum 1 0], []] ∧
    last.file? 2 = mutualImports.file? 2 ∧
    ∀ place file, mutualImports.file? place = some file →
      ∃ sources blocks, mutualImports.PassesOn last place file sources blocks := by
  have hRun : mutualImports.exportPublicImports
      = .ok { mutualImports with files := mutualImports.files.map mutualImports.passingOn } := rfl
  have hExact := ((publicImports_exact mutualImports).2.2.1 _ hRun).2.2
  refine ⟨_, hRun, rfl, ?_, fun place file hFile => (hExact place file hFile).1⟩
  exact (hExact 2 _ rfl).2 rfl

end Graph

end ProtoBind
