import ProtoBind.Proofs.OutputNames
import ProtoBind.Proofs.TypeNames

/-!
# Entries of a manifest

What the manifest of a run holds for the services of its files. A service is recorded under the directory
of its API and its name in the case of types, and where two come to one key the last of them counts.
-/

set_option autoImplicit false

namespace ProtoBind

open Naming Emit Text Wire

/-! ### Manifests -/

/-- The entry for a service, by the directory of its API and its name. -/
def entryFor (service : String × String) : String × String := (service.1 ++ "/" ++ service.2, service.1)

namespace Generation

def recorded (generation : Generation) : List (String × String) :=
  generation.services.map fun service => (generation.dir, service)

theorem entries_addTo (manifest : Manifest) (generation : Generation) :
    (generation.addTo manifest).entries
      = manifest.entries.insertAll (generation.recorded.map entryFor) := by
  unfold addTo recorded
  induction generation.services generalizing manifest with
  | nil => rfl
  | cons service rest ih => exact ih _

end Generation

/-- A manifest is the table of the entries for all services, in their order. -/
theorem Manifest.entries_ofGenerations (generations : List Generation) :
    (ofGenerations generations).entries
      = Table.ofList ((generations.flatMap Generation.recorded).map entryFor) := by
  have hFold : ∀ manifest : Manifest, (generations.foldl Generation.addTo manifest).entries
      = manifest.entries.insertAll ((generations.flatMap Generation.recorded).map entryFor) := by
    induction generations with
    | nil => exact fun _ => rfl
    | cons generation rest ih =>
      intro manifest
      rw [List.foldl_cons, ih, Generation.entries_addTo, List.flatMap_cons, List.map_append,
        Table.insertAll_append]
  exact hFold {}

/-! ### Services of files -/

/-- The services of schema files in the case of types, each with the directory of its API. -/
def apiServices (paths : PathsMode) (files : List FileNode) : List (String × String) :=
  files.flatMap fun file => file.decl.services.map fun service =>
    (dirName (file.outputName paths .api), pascal service.name)

theorem slash_not_mem_pascal {name : String} (h : isSchemaName name = true) :
    '/' ∉ (pascal name).toList := by
  intro hMem
  rw [pascal_toList] at hMem
  exact absurd (isAlphanum_of_mem_spelling h hMem) (by decide)

theorem entryFor_inj {a b : String × String} (hA : '/' ∉ a.2.toList) (hB : '/' ∉ b.2.toList)
    (h : (entryFor a).1 = (entryFor b).1) : a = b := by
  have hSplit : ∀ p : String × String, '/' ∉ p.2.toList →
      splitLast '/' (entryFor p).1.toList = some (p.1.toList, p.2.toList) := by
    intro p hP
    have hList : (entryFor p).1.toList = p.1.toList ++ '/' :: p.2.toList := by simp [entryFor]
    rw [hList, splitLast_append _ hP]
  have hBoth := hSplit a hA
  rw [h, hSplit b hB, Option.some.injEq, Prod.mk.injEq, String.toList_inj, String.toList_inj] at hBoth
  exact Prod.ext hBoth.1.symm hBoth.2.symm

/-- Services with the names of a schema come to one key only if they have one directory and one name in
the case of types. -/
theorem nodup_keys_iff {paths : PathsMode} {files : List FileNode}
    (h : ∀ file ∈ files, ∀ service ∈ file.decl.services, isSchemaName service.name = true) :
    ((apiServices paths files).map fun service => (entryFor service).1).Nodup
      ↔ (apiServices paths files).Nodup := by
  have hSlash : ∀ service ∈ apiServices paths files, '/' ∉ service.2.toList := by
    intro service hService
    obtain ⟨file, hFile, hMem⟩ := List.mem_flatMap.mp hService
    obtain ⟨decl, hDecl, rfl⟩ := List.mem_map.mp hMem
    exact slash_not_mem_pascal (h file hFile decl hDecl)
  constructor
  · exact List.Nodup.of_map _
  · intro hDistinct
    exact hDistinct.map_on fun a hA b hB hSame => entryFor_inj (hSlash a hA) (hSlash b hB) hSame

/-- The manifest of a run has an entry for every service of every file, with the directory of the API, as
far as no later service has its key. It has all of these entries just where the keys differ, and the keys
of services with schema names differ just where no two have one directory and one name in the case of
types. -/
theorem manifest_of_generateAll {bytes : Bytes} {config : Config} {request : Request}
    {generations : List Generation} (hRequest : Request.decode bytes = .ok request)
    (h : generateAll bytes config = .ok generations) :
    ∃ project files, Project.ofBytes bytes config = .ok project ∧ project.graph.decls = request.files ∧
      List.Forall₂ (fun name file => ∃ place, project.graph.fileByName? name = some place ∧
        project.graph.file? place = some file) request.filesToGenerate files ∧
      (∀ key, (Manifest.ofGenerations generations).entries.get? key
        = entryAt? key ((apiServices config.params.paths files).map entryFor).reverse) ∧
      ((Manifest.ofGenerations generations).entries.toList.Perm
          ((apiServices config.params.paths files).map entryFor)
        ↔ ((apiServices config.params.paths files).map fun service => (entryFor service).1).Nodup) ∧
      ((∀ file ∈ files, ∀ service ∈ file.decl.services, isSchemaName service.name = true) →
        (((apiServices config.params.paths files).map fun service => (entryFor service).1).Nodup
          ↔ (apiServices config.params.paths files).Nodup)) := by
  obtain ⟨decoded, project, hDecoded, hProject, hDecls, hMade⟩ := generateAll_spec h
  obtain rfl : request = decoded := Except.ok.inj (hRequest.symm.trans hDecoded)
  obtain ⟨-, hConfig⟩ := prepare_of_ofBytes hRequest hProject
  have hFiles : ∃ files, List.Forall₂ (fun name file => ∃ place,
        project.graph.fileByName? name = some place ∧ project.graph.file? place = some file)
        request.filesToGenerate files ∧
      generations.flatMap Generation.recorded = apiServices config.params.paths files := by
    clear h hRequest hDecoded hDecls
    generalize request.filesToGenerate = names at hMade
    induction hMade with
    | nil => exact ⟨[], .nil, rfl⟩
    | cons hHead hTail ih =>
      obtain ⟨files, hFiles, hServices⟩ := ih
      obtain ⟨file, hFile⟩ := hHead
      obtain ⟨place, hPlace, hAt, -⟩ := hFile.place
      refine ⟨file :: files, .cons ⟨place, hPlace, hAt⟩ hFiles, ?_⟩
      rw [List.flatMap_cons, hServices, apiServices, apiServices, List.flatMap_cons, Generation.recorded,
        hFile.services, List.map_map, Generation.dir, hFile.api, hConfig]
      rfl
  obtain ⟨files, hFiles, hServices⟩ := hFiles
  refine ⟨project, files, hProject, hDecls, hFiles, ?_, ?_, nodup_keys_iff⟩
  · intro key
    rw [Manifest.entries_ofGenerations, hServices, Table.get?_ofPairs]
  · rw [Manifest.entries_ofGenerations, hServices, Table.perm_ofList_iff, List.map_map]
    rfl

/-- A request for a file with two services that have one name in the case of types. -/
def twinServices : Request where
  filesToGenerate := ["a"]
  files := [{ name := "a", services := [{ name := "U" }, { name := "u" }] }]

def twinServicesBytes : Bytes := [10, 1, 97, 122, 13, 10, 1, 97, 50, 3, 10, 1, 85, 50, 3, 10, 1, 117]

theorem manifest_of_generateAll_twinServices : ∃ generations project file,
    Request.decode twinServicesBytes = .ok twinServices ∧
    generateAll twinServicesBytes {} = .ok generations ∧
    Project.ofBytes twinServicesBytes {} = .ok project ∧ project.graph.fileByName? "a" = some 0 ∧
    project.graph.file? 0 = some file ∧ (apiServices .byImport [file]).length = 2 ∧
    ¬ (Manifest.ofGenerations generations).entries.toList.Perm
      ((apiServices .byImport [file]).map entryFor) := by
  have hDecode : Request.decode twinServicesBytes = .ok twinServices := rfl
  have hSettles : (Project.ofRequest twinServices {}).toOption.any Project.settles = true := by decide +kernel
  obtain ⟨generations, hAll⟩ := exists_generateAll_of_settles hDecode hSettles
  obtain ⟨project, files, hProject, hDecls, hFiles, -, hPerm, -⟩ := manifest_of_generateAll hDecode hAll
  cases hFiles with
  | cons hFirst hRest =>
    rename_i file others
    cases hRest
    obtain ⟨place, hPlace, hFile⟩ := hFirst
    have hDecl := Graph.decl_of_file? hFile
    rw [hDecls] at hDecl
    obtain ⟨hBound, hSame⟩ := List.getElem?_eq_some_iff.mp hDecl
    obtain rfl : place = 0 := Nat.lt_one_iff.mp hBound
    have hServices : file.decl.services = [{ name := "U" }, { name := "u" }] := hSame ▸ rfl
    have hPascal : pascal "U" = "U" ∧ pascal "u" = "U" := by decide +kernel
    refine ⟨generations, project, file, hDecode, hAll, hProject, hPlace, hFile, ?_, ?_⟩
    · simp [apiServices, hServices]
    · rw [hPerm]
      simp [apiServices, hServices, hPascal]

end ProtoBind
