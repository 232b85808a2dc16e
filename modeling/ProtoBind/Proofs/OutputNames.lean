import Mathlib
import ProtoBind.Proofs.PathParts
import ProtoBind.Proofs.PreparedGraph
import ProtoBind.Proofs.BatchRuns

/-!
# Names of emitted files

The files of a run stand in one directory for all schema files, or next to the schema file of each. Their
names differ just where the schema files differ in base name or in directory, as far as either is written.
-/

set_option autoImplicit false

namespace ProtoBind

open Naming Emit Wire

/-! ### One name -/

/-- The name of a file that is emitted for the schema file with a name, in a package. -/
def emittedName (paths : PathsMode) (package : String) (pass : Pass) (name : String) : String :=
  pathIn (match paths with | .byImport => package | .sourceRelative => dirName name)
    (baseName name ++ pass.suffix)

theorem outputName_eq (paths : PathsMode) (pass : Pass) (file : FileNode) :
    file.outputName paths pass = emittedName paths file.packageName pass file.decl.name := rfl

theorem slash_not_mem_suffixed (name : String) (pass : Pass) :
    '/' ∉ (baseName name ++ pass.suffix).toList := by
  rw [String.toList_append, List.mem_append]
  rintro (hBase | hSuffix)
  · exact slash_not_mem_baseName name hBase
  · revert hSuffix
    cases pass <;> decide

/-- A base name and a pass are read off the last element of a name. -/
theorem suffixed_inj {a b : String} {p q : Pass} : a ++ p.suffix = b ++ q.suffix ↔ a = b ∧ p = q := by
  constructor
  · intro h
    have hLists := congrArg String.toList h
    rw [String.toList_append, String.toList_append] at hLists
    have hPass : p = q := by
      have hEnds := congrArg (fun cs => cs.reverse.take 4) hLists
      simp only [List.reverse_append] at hEnds
      cases p <;> cases q
      · rfl
      · exact absurd hEnds (by simp [Pass.suffix])
      · exact absurd hEnds (by simp [Pass.suffix])
      · rfl
    subst hPass
    exact ⟨String.toList_inj.mp (List.append_cancel_right hLists), rfl⟩
  · rintro ⟨rfl, rfl⟩
    rfl

/-- Whether two schema files are emitted under the same names: they have one base name, and where files
stand next to their schema files they also have one directory. -/
def SharesOutput (paths : PathsMode) (a b : String) : Prop :=
  baseName a = baseName b ∧ (paths = .sourceRelative → dirName a = dirName b)

instance (paths : PathsMode) (a b : String) : Decidable (SharesOutput paths a b) :=
  inferInstanceAs (Decidable (_ ∧ _))

theorem emittedName_inj {paths : PathsMode} {package a b : String} {p q : Pass} :
    emittedName paths package p a = emittedName paths package q b ↔ SharesOutput paths a b ∧ p = q := by
  have hA := slash_not_mem_suffixed a p
  have hB := slash_not_mem_suffixed b q
  constructor
  · intro h
    have hLast : (baseName a ++ p.suffix).toList = (baseName b ++ q.suffix).toList := by
      have hSegment := congrArg (fun path => lastSegment path.toList) h
      simpa only [emittedName, lastSegment_pathIn _ hA, lastSegment_pathIn _ hB] using hSegment
    obtain ⟨hBase, hPass⟩ := suffixed_inj.mp (String.toList_inj.mp hLast)
    refine ⟨⟨hBase, ?_⟩, hPass⟩
    rintro rfl
    have hDir := congrArg dirName h
    rwa [emittedName, emittedName, dirName_pathIn _ hA, dirName_pathIn _ hB,
      if_neg (dirName_ne_empty a), if_neg (dirName_ne_empty b)] at hDir
  · rintro ⟨⟨hBase, hDir⟩, rfl⟩
    cases paths with
    | byImport => rw [emittedName, emittedName, hBase]
    | sourceRelative => rw [emittedName, emittedName, hBase, hDir rfl]

/-! ### All names of a run -/

/-- The names of the files that are emitted for schema files with these names. -/
def emittedNames (paths : PathsMode) (package : String) (names : List String) : List String :=
  names.flatMap fun name => [emittedName paths package .model name, emittedName paths package .api name]

theorem nodup_emittedNames {paths : PathsMode} {package : String} {names : List String} :
    (emittedNames paths package names).Nodup ↔ names.Pairwise fun a b => ¬ SharesOutput paths a b := by
  have hDisjoint : ∀ a b, List.Disjoint
      [emittedName paths package .model a, emittedName paths package .api a]
      [emittedName paths package .model b, emittedName paths package .api b]
      ↔ ¬ SharesOutput paths a b := by
    intro a b
    simp only [List.disjoint_cons_left, List.disjoint_nil_left, List.mem_cons, List.not_mem_nil,
      emittedName_inj, reduceCtorEq, and_true, and_false, or_false, false_or, and_self]
  rw [emittedNames, List.nodup_flatMap]
  constructor
  · rintro ⟨-, hPairs⟩
    exact hPairs.imp fun h => (hDisjoint _ _).mp h
  · intro hPairs
    refine ⟨fun name _ => ?_, hPairs.imp fun h => (hDisjoint _ _).mpr h⟩
    simp [emittedName_inj]

theorem Graph.packageAt_of_prepare {files : List FileDecl} {names : List String} {params : Parameters}
    {g : Graph} {index : NameIndex} (h : Graph.prepare files names params = .ok (g, index))
    {name : String} {place : Nat} {file : FileNode} (hPlace : g.fileByName? name = some place)
    (hFile : g.file? place = some file) :
    packageAt files names params name = some (file.importPath, file.packageName) := by
  obtain ⟨-, -, -, -, hExport⟩ := prepare_ok_iff.mp h
  have hSame := (sameFiles_withConstants (resolved files names params)).trans
    (sameFiles_exportPublicImports hExport)
  have hConstants : (resolved files names params).withConstants.file? place
      = ((resolved files names params).file? place).map
        fun file => { file with enums := nameEnums [] file.enums } := List.getElem?_map
  rw [file?_of_exportPublicImports hExport, hConstants, Option.map_map] at hFile
  obtain ⟨first, hFirst, rfl⟩ := Option.map_eq_some_iff.mp hFile
  rw [packageAt, fileByName?_congr hSame.decls, hPlace]
  rw [Option.bind_some, hFirst]
  rfl

/-- The files of a run have the names that are emitted in one package. -/
theorem names_of_generateAll {bytes : Bytes} {config : Config} {request : Request}
    {generations : List Generation} (hRequest : Request.decode bytes = .ok request)
    (h : generateAll bytes config = .ok generations) :
    ∃ package, (Response.ofGenerations generations).files.map (·.name)
      = emittedNames config.params.paths package request.filesToGenerate := by
  obtain ⟨decoded, project, hDecoded, hProject, -, hMade⟩ := generateAll_spec h
  obtain rfl : request = decoded := Except.ok.inj (hRequest.symm.trans hDecoded)
  obtain ⟨hPrepare, hConfig⟩ := prepare_of_ofBytes hRequest hProject
  obtain ⟨-, hPresent, hConsistent, -, -⟩ := Graph.prepare_ok_iff.mp hPrepare
  have hOne := (Graph.consistent_iff hPresent).mp hConsistent
  have hPackages : ∃ package, ∀ name ∈ request.filesToGenerate, ∀ file generation,
      MadeFor project name file generation → file.packageName = package := by
    have hAt : ∀ name file generation, MadeFor project name file generation →
        packageAt request.files request.filesToGenerate config.params name
          = some (file.importPath, file.packageName) := by
      rintro name file generation ⟨⟨place, hPlace, hFile, -⟩, -, -, -, -⟩
      exact Graph.packageAt_of_prepare hPrepare hPlace hFile
    cases hNames : request.filesToGenerate with
    | nil => exact ⟨"", fun name hName => absurd hName List.not_mem_nil⟩
    | cons first rest =>
      have hFirst : first ∈ request.filesToGenerate := hNames ▸ List.mem_cons_self
      refine ⟨((packageAt request.files request.filesToGenerate config.params first).map (·.2)).getD "", ?_⟩
      intro name hName file generation hMadeFor
      rw [hOne first hFirst name (hNames ▸ hName), hAt name file generation hMadeFor]
      rfl
  obtain ⟨package, hPackage⟩ := hPackages
  refine ⟨package, ?_⟩
  rw [Response.ofGenerations, emittedNames, List.map_flatMap]
  clear h hRequest hDecoded hPrepare hPresent hConsistent hOne
  generalize request.filesToGenerate = names at hMade hPackage
  induction hMade with
  | nil => rfl
  | cons hHead hTail ih =>
    obtain ⟨file, hFile⟩ := hHead
    have hSame := hPackage _ List.mem_cons_self _ _ hFile
    rw [List.flatMap_cons, List.flatMap_cons, ih fun name hName => hPackage name (List.mem_cons_of_mem _ hName),
      Generation.files, List.map_cons, List.map_cons, List.map_nil, hFile.model, hFile.api, outputName_eq,
      outputName_eq, hSame, hFile.named, hConfig]

/-! ### Schema files in tidy places -/

def IsSchemaFile (name : String) : Prop := ".proto".toList <:+ name.toList

instance (name : String) : Decidable (IsSchemaFile name) :=
  inferInstanceAs (Decidable (_ <:+ _))

/-- Whether a name does without what can be left out: a dot for the current directory in front of a slash
or a second slash in front of everything. Its last element is more than an extension. -/
structure Tidy (name : String) : Prop where
  current : ¬ "./".toList <+: name.toList
  root : ¬ "//".toList <+: name.toList
  stem : lastSegment name.toList ≠ ".proto".toList

theorem isSuffix_lastSegment {suffix path : List Char} (hSlash : '/' ∉ suffix) (h : suffix <:+ path) :
    suffix <:+ lastSegment path := by
  obtain ⟨front, rfl⟩ := h
  rcases Text.not_mem_or_eq_append '/' front with hFront | ⟨dir, rest, rfl, hRest⟩
  · rw [lastSegment_of_not_mem (by simp [hFront, hSlash])]
    exact List.suffix_append front suffix
  · rw [List.append_assoc, List.cons_append, lastSegment_append dir (by simp [hRest, hSlash])]
    exact List.suffix_append rest suffix

/-- The last element of a schema file's name is its base name with the extension. -/
theorem lastSegment_of_tidy {name : String} (hFile : IsSchemaFile name) (hTidy : Tidy name) :
    lastSegment name.toList = (baseName name).toList ++ ".proto".toList := by
  obtain ⟨stem, hStem⟩ := isSuffix_lastSegment (by decide) hFile
  have hSome : stem ≠ [] := by
    rintro rfl
    exact hTidy.stem hStem.symm
  have hDrop : dropExtension (stem ++ ".proto".toList) = stem :=
    @dropExtension_append stem "proto".toList hSome (by decide)
  rw [baseName, String.toList_ofList, ← hStem, hDrop]

/-- What stands before the last element of a name with this directory. -/
def leadOf (dir : String) : String := if dir = "." then "" else if dir = "/" then "/" else dir ++ "/"

/-- A tidy name is put together again from its directory and its base name. -/
theorem eq_of_tidy {name : String} (hFile : IsSchemaFile name) (hTidy : Tidy name) :
    name = leadOf (dirName name) ++ baseName name ++ ".proto" := by
  have hLast : String.ofList (lastSegment name.toList) = baseName name ++ ".proto" := by
    rw [lastSegment_of_tidy hFile hTidy, ← String.toList_inj]
    simp
  rw [String.append_assoc, ← hLast]
  rcases path_cases name with h | ⟨dir, last, rfl, h⟩
  · rw [dirName_of_not_mem h, lastSegment_of_not_mem h, String.ofList_toList]
    exact (String.empty_append).symm
  · have hList : (dir ++ "/" ++ last).toList = dir.toList ++ '/' :: last.toList := by simp
    rw [dirName_append dir h, hList, lastSegment_append _ h, String.ofList_toList]
    have hCurrent : dir ≠ "." := by
      rintro rfl
      exact hTidy.current ⟨last.toList, by simp⟩
    have hRoot : dir ≠ "/" := by
      rintro rfl
      exact hTidy.root ⟨last.toList, by simp⟩
    unfold leadOf
    by_cases hEmpty : dir = ""
    · subst hEmpty
      rfl
    · rw [if_neg hEmpty, if_neg hCurrent, if_neg hRoot]

theorem eq_of_shares {a b : String} (hA : IsSchemaFile a ∧ Tidy a) (hB : IsSchemaFile b ∧ Tidy b)
    (hDir : dirName a = dirName b) (hBase : baseName a = baseName b) : a = b := by
  rw [eq_of_tidy hA.1 hA.2, eq_of_tidy hB.1 hB.2, hDir, hBase]

/-! ### Runs -/

theorem exists_generateAll {bytes : Bytes} {config : Config} {before after : Disk} {response : Response}
    (h : generate Disk.store bytes config before = (.ok response, after)) :
    ∃ generations, generateAll bytes config = .ok generations ∧ response = .ofGenerations generations := by
  rw [generate_store] at h
  cases hAll : generateAll bytes config with
  | error e =>
    rw [hAll] at h
    cases h
  | ok generations =>
    rw [hAll] at h
    refine ⟨generations, rfl, ?_⟩
    dsimp only at h
    split at h
    · cases h
    · cases h
      rfl

theorem nodup_names_iff {bytes : Bytes} {config : Config} {request : Request} {response : Response}
    {before after : Disk} (hRequest : Request.decode bytes = .ok request)
    (h : generate Disk.store bytes config before = (.ok response, after)) :
    (response.files.map (·.name)).Nodup ↔
      request.filesToGenerate.Pairwise fun a b => ¬ SharesOutput config.params.paths a b := by
  obtain ⟨generations, hAll, rfl⟩ := exists_generateAll h
  obtain ⟨package, hNames⟩ := names_of_generateAll hRequest hAll
  rw [hNames, nodup_emittedNames]

/-- The files of a run have different names just where no two schema files share their output. Tidy names
of schema files never do where the output stands next to them or they stand in one directory. -/
theorem nodup_outputNames {bytes : Bytes} {config : Config} {request : Request} {response : Response}
    {before after : Disk} (hRequest : Request.decode bytes = .ok request)
    (h : generate Disk.store bytes config before = (.ok response, after)) :
    ((response.files.map (·.name)).Nodup ↔
      request.filesToGenerate.Pairwise fun a b => ¬ SharesOutput config.params.paths a b) ∧
    (request.filesToGenerate.Nodup →
      (∀ name ∈ request.filesToGenerate, IsSchemaFile name ∧ Tidy name) →
      (config.params.paths = .byImport →
        ∀ a ∈ request.filesToGenerate, ∀ b ∈ request.filesToGenerate, dirName a = dirName b) →
      (response.files.map (·.name)).Nodup) := by
  refine ⟨nodup_names_iff hRequest h, ?_⟩
  intro hDistinct hTidy hOne
  rw [nodup_names_iff hRequest h]
  refine hDistinct.imp_of_mem ?_
  rintro a b hA hB hOther ⟨hBase, hDir⟩
  apply hOther
  apply eq_of_shares (hTidy a hA) (hTidy b hB) ?_ hBase
  cases hPaths : config.params.paths with
  | byImport => exact hOne hPaths a hA b hB
  | sourceRelative => exact hDir hPaths

theorem services_of_generateAll {bytes : Bytes} {config : Config} {request : Request}
    {generations : List Generation} (hRequest : Request.decode bytes = .ok request)
    (h : generateAll bytes config = .ok generations) (hNone : ∀ file ∈ request.files, file.services = []) :
    ∀ generation ∈ generations, generation.services = [] := by
  obtain ⟨decoded, project, hDecoded, -, hDecls, hMade⟩ := generateAll_spec h
  obtain rfl : request = decoded := Except.ok.inj (hRequest.symm.trans hDecoded)
  intro generation hMem
  obtain ⟨name, -, file, hFile⟩ := exists_of_forall₂_right hMade generation hMem
  obtain ⟨place, -, hAt, -⟩ := hFile.place
  have hDecl : file.decl ∈ request.files := hDecls ▸ List.mem_of_getElem? (Graph.decl_of_file? hAt)
  rw [hFile.services, hNone file.decl hDecl, List.map_nil]

/-- A run without services that comes through leaves the disk as it was. -/
theorem exists_response {bytes : Bytes} {config : Config} {request : Request}
    (hRequest : Request.decode bytes = .ok request) (hNone : ∀ file ∈ request.files, file.services = [])
    (h : (Project.ofRequest request config).toOption.any Project.settles = true) (disk : Disk) :
    ∃ response, generate Disk.store bytes config disk = (.ok response, disk) := by
  obtain ⟨generations, hAll⟩ := exists_generateAll_of_settles hRequest h
  have hServices := services_of_generateAll hRequest hAll hNone
  have hSave : (Manifest.ofGenerations generations).save Disk.store config.params.manifestDir disk
      = (.ok (), disk) := by
    rw [Manifest.save_store, if_pos ((Manifest.isEmpty_ofGenerations generations).mpr hServices)]
  refine ⟨.ofGenerations generations, ?_⟩
  rw [generate_store, hAll]
  dsimp only
  rw [hSave]

def twinFiles : Request where
  filesToGenerate := ["a/x.proto", "b/x.proto"]
  files := [{ name := "a/x.proto" }, { name := "b/x.proto" }]

def twinFilesBytes : Bytes :=
  [10, 9, 97, 47, 120, 46, 112, 114, 111, 116, 111, 10, 9, 98, 47, 120, 46, 112, 114, 111, 116,
    111, 122, 11, 10, 9, 97, 47, 120, 46, 112, 114, 111, 116, 111, 122, 11, 10, 9, 98, 47, 120, 46,
    112, 114, 111, 116, 111]

/-- A request for two files of one directory that is written in two ways. -/
def dottedFiles : Request where
  filesToGenerate := ["a.proto", "./a.proto"]
  files := [{ name := "a.proto" }, { name := "./a.proto" }]

def dottedFilesBytes : Bytes :=
  [10, 7, 97, 46, 112, 114, 111, 116, 111, 10, 9, 46, 47, 97, 46, 112, 114, 111, 116, 111, 122, 9,
    10, 7, 97, 46, 112, 114, 111, 116, 111, 122, 11, 10, 9, 46, 47, 97, 46, 112, 114, 111, 116,
    111]

/-- The configuration for one import path, with output in one directory or next to the schema files. -/
def shopConfig (paths : PathsMode) : Config := { params := { importPath := some "shop", paths } }

theorem exists_response_twinFiles (paths : PathsMode) : ∃ response,
    generate Disk.store twinFilesBytes (shopConfig paths) .empty = (.ok response, .empty) := by
  have hDecode : Request.decode twinFilesBytes = .ok twinFiles := rfl
  apply exists_response hDecode (by decide)
  cases paths
  · decide +kernel
  · decide +kernel

theorem nodup_outputNames_twinFiles : ∃ response,
    Request.decode twinFilesBytes = .ok twinFiles ∧
    generate Disk.store twinFilesBytes (shopConfig .sourceRelative) .empty = (.ok response, .empty) ∧
    (response.files.map (·.name)).Nodup := by
  have hDecode : Request.decode twinFilesBytes = .ok twinFiles := rfl
  obtain ⟨response, hRun⟩ := exists_response_twinFiles .sourceRelative
  refine ⟨response, hDecode, hRun, (nodup_outputNames hDecode hRun).1.mpr ?_⟩
  decide

/-- Files of two directories clash in the directory of their package, and next to them if one directory is
written in two ways. -/
theorem outputNames_clash :
    (∃ response, Request.decode twinFilesBytes = .ok twinFiles ∧ twinFiles.filesToGenerate.Nodup ∧
      (∀ name ∈ twinFiles.filesToGenerate, IsSchemaFile name) ∧
      generate Disk.store twinFilesBytes (shopConfig .byImport) .empty = (.ok response, .empty) ∧
      ¬ (response.files.map (·.name)).Nodup) ∧
    ∃ response, Request.decode dottedFilesBytes = .ok dottedFiles ∧ dottedFiles.filesToGenerate.Nodup ∧
      (∀ name ∈ dottedFiles.filesToGenerate, IsSchemaFile name) ∧
      generate Disk.store dottedFilesBytes (shopConfig .sourceRelative) .empty = (.ok response, .empty) ∧
      ¬ (response.files.map (·.name)).Nodup := by
  constructor
  · have hDecode : Request.decode twinFilesBytes = .ok twinFiles := rfl
    obtain ⟨response, hRun⟩ := exists_response_twinFiles .byImport
    refine ⟨response, hDecode, by decide, by decide, hRun, ?_⟩
    rw [nodup_names_iff hDecode hRun]
    decide
  · have hDecode : Request.decode dottedFilesBytes = .ok dottedFiles := rfl
    have hSettles : (Project.ofRequest dottedFiles (shopConfig .sourceRelative)).toOption.any
        Project.settles = true := by decide +kernel
    obtain ⟨response, hRun⟩ := exists_response hDecode (by decide) hSettles .empty
    refine ⟨response, hDecode, by decide, by decide, hRun, ?_⟩
    rw [nodup_names_iff hDecode hRun]
    decide

end ProtoBind
