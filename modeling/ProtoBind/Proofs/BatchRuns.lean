import ProtoBind.Proofs.PackagePrecedence
import ProtoBind.Proofs.SettledRuns

/-!
# Files generated together and one by one

Without an import path for all files to generate, each of them comes out the same whichever others are
generated with it. A run for several files fails for one reason more: they are of different packages.
-/

set_option autoImplicit false

namespace ProtoBind

/-! ### Manifests -/

theorem get?_insertAll_addTo (services : List String) (dir key : String) (manifest : Manifest) :
    (services.foldl (fun manifest service => Manifest.add manifest dir service) manifest).entries.get? key
      = ((services.foldl (fun manifest service => Manifest.add manifest dir service) {}).entries.get? key).or
        (manifest.entries.get? key) := by
  induction services using List.reverseRecOn with
  | nil => rfl
  | append_singleton services service ih =>
    rw [List.foldl_append, List.foldl_append]
    change (Manifest.add _ dir service).entries.get? key = ((Manifest.add _ dir service).entries.get? key).or _
    rw [Manifest.add, Manifest.add, Table.get?_insert, Table.get?_insert, ih]
    split <;> rfl

namespace Manifest

theorem ofGenerations_concat (generations : List Generation) (generation : Generation) :
    ofGenerations (generations ++ [generation]) = generation.addTo (ofGenerations generations) := by
  rw [ofGenerations, List.foldl_append]
  rfl

/-- A manifest answers as the last of its generations that has an answer. -/
theorem get?_ofGenerations (generations : List Generation) (key : String) :
    (ofGenerations generations).entries.get? key
      = generations.reverse.findSome? fun generation => (ofGenerations [generation]).entries.get? key := by
  induction generations using List.reverseRecOn with
  | nil => rfl
  | append_singleton generations generation ih =>
    rw [ofGenerations_concat, Generation.addTo, get?_insertAll_addTo, ih, List.reverse_append,
      List.reverse_singleton, List.singleton_append, List.findSome?_cons]
    change (Option.or ((ofGenerations [generation]).entries.get? key) _) = _
    cases (ofGenerations [generation]).entries.get? key <;> rfl

end Manifest

/-! ### Packages -/

def packageAt (files : List FileDecl) (names : List String) (params : Parameters) (name : String) :
    Option (String × String) :=
  let graph := Graph.resolved files names params
  ((graph.fileByName? name).bind graph.file?).map fun file => (file.importPath, file.packageName)

/-- All files with these names are of one package. -/
def OnePackage (files : List FileDecl) (names : List String) (params : Parameters) : Prop :=
  ∀ a ∈ names, ∀ b ∈ names, packageAt files names params a = packageAt files names params b

section

variable {files : List FileDecl} {params : Parameters} (hPath : params.importPath = none)
include hPath

theorem located_select (names others : List String) (file : FileDecl) :
    file.located others params = { file.located names params with generate := others.contains file.name } := by
  unfold FileDecl.located FileNode.chooseImportPath
  rw [hPath]
  rfl

theorem packaged_select (names others : List String) (file : FileDecl) :
    file.packaged others params files
      = { file.packaged names params files with generate := others.contains file.name } := by
  have hOption : ∀ importPath, optionNameOf? (files.map (FileDecl.located others params)) importPath
      = optionNameOf? (files.map (FileDecl.located names params)) importPath := by
    intro importPath
    rw [optionNameOf?, optionNameOf?, List.findSome?_map, List.findSome?_map]
    congr 1
    funext file
    rw [Function.comp_apply, Function.comp_apply, located_select hPath names others]
    rfl
  have hDefault : params.defaultName? = none := by rw [Parameters.defaultName?, hPath]
  unfold FileDecl.packaged FileNode.choosePackageName
  simp only [hOption, hDefault]
  rw [located_select hPath names others]
  rfl

/-- Which files are to be generated makes no difference to the others. -/
theorem moved_select (names others : List String) :
    Graph.Moved id (Graph.resolved files names params).withConstants
      (Graph.resolved files others params).withConstants := by
  refine ⟨Function.injective_id, fun place => ?_⟩
  rw [Graph.file?, Graph.file?, Graph.withConstants, Graph.withConstants, List.getElem?_map,
    List.getElem?_map, Graph.files_resolved, Graph.files_resolved, List.getElem?_map, List.getElem?_map, id]
  cases files[place]? with
  | none => exact .none
  | some file =>
    refine .some ?_
    rw [packaged_select hPath names others]
    exact ⟨rfl, rfl, rfl, rfl, rfl, rfl⟩

end

namespace Graph

theorem exists_file_resolved {files : List FileDecl} {names : List String} {params : Parameters}
    {name : String} (h : ∃ file ∈ files, file.name = name) :
    ∃ place file, (resolved files names params).fileByName? name = some place ∧
      (resolved files names params).file? place = some file := by
  cases hPlace : (resolved files names params).fileByName? name with
  | none =>
    obtain ⟨decl, hDecl, hName⟩ := h
    rw [← decls_resolved files names params] at hDecl
    obtain ⟨file, hFile, rfl⟩ := List.mem_map.mp hDecl
    exact absurd hName (fileByName?_eq_none_iff.mp hPlace file hFile)
  | some place =>
    obtain ⟨file, hFile, -⟩ := file?_of_fileByName? hPlace
    exact ⟨place, file, rfl, hFile⟩

theorem mem_generated_resolved {files : List FileDecl} {names : List String} {params : Parameters}
    {file : FileNode} :
    file ∈ (resolved files names params).generated ↔ ∃ name ∈ names,
      ((resolved files names params).fileByName? name).bind (resolved files names params).file?
        = some file := by
  rw [generated, toGenerate_resolved, List.filterMap_filterMap, List.mem_filterMap]

/-- Files to generate are consistent if they are of one package. -/
theorem consistent_iff {files : List FileDecl} {names : List String} {params : Parameters}
    (hPresent : ∀ name ∈ names, ∃ file ∈ files, file.name = name) :
    (resolved files names params).checkConsistency = .ok () ↔ OnePackage files names params := by
  rw [checkConsistency_ok_iff]
  constructor
  · intro h a hA b hB
    obtain ⟨i, x, hI, hX⟩ := exists_file_resolved (hPresent a hA)
    obtain ⟨j, y, hJ, hY⟩ := exists_file_resolved (hPresent b hB)
    have hSame := h x (mem_generated_resolved.mpr ⟨a, hA, by rw [hI]; exact hX⟩)
      y (mem_generated_resolved.mpr ⟨b, hB, by rw [hJ]; exact hY⟩)
    simp only [packageAt, hI, hJ, Option.bind_some, hX, hY, Option.map_some, hSame.1, hSame.2]
  · intro h x hX y hY
    obtain ⟨a, hA, hX⟩ := mem_generated_resolved.mp hX
    obtain ⟨b, hB, hY⟩ := mem_generated_resolved.mp hY
    have hSame := h a hA b hB
    simp only [packageAt, hX, hY, Option.map_some, Option.some.injEq, Prod.mk.injEq] at hSame
    exact hSame

/-- What comes before emission for some files comes for others of one package. -/
theorem prepare_select {files : List FileDecl} {params : Parameters} (hPath : params.importPath = none)
    {names others : List String} (hOthers : others ≠ [])
    (hPresent : ∀ name ∈ others, ∃ file ∈ files, file.name = name)
    (hPackage : OnePackage files others params) {g : Graph} {index : NameIndex}
    (h : prepare files names params = .ok (g, index)) :
    ∃ k other, prepare files others params = .ok (k, other) ∧ Moved id g k ∧
      ∀ name, Alike (fun a b => b = a.renumber id) (index.get name) (other.get name) := by
  obtain ⟨-, -, -, hIndex, hExport⟩ := prepare_ok_iff.mp h
  have hMoved := @moved_select files params hPath names others
  obtain ⟨other, hOther, hGet⟩ := hMoved.index Function.surjective_id hIndex
  have hNames : ∀ name, (resolved files others params).withConstants.fileByName? name
      = ((resolved files names params).withConstants.fileByName? name).map id := by
    intro name
    have hDecls : (resolved files others params).withConstants.decls
        = (resolved files names params).withConstants.decls := by
      rw [← (sameFiles_withConstants _).decls, ← (sameFiles_withConstants _).decls, decls_resolved,
        decls_resolved]
    rw [fileByName?_congr hDecls, Option.map_id_apply]
  obtain ⟨k, hLast, hLastMoved, -, -⟩ := hMoved.exportPublicImports hNames Function.surjective_id hExport
  exact ⟨k, other, prepare_ok_iff.mpr ⟨hOthers, hPresent, (consistent_iff hPresent).mpr hPackage, hOther,
    hLast⟩, hLastMoved, hGet⟩

end Graph

/-! ### Runs -/

/-- The files for a list of schema files, of which those named are generated. -/
def produce (files : List FileDecl) (names : List String) (rules : Http.Rules) (config : Config) :
    Except Error (List Generation) := do
  let project ← Project.ofFiles files names rules config
  project.generations

theorem produce_eq {files : List FileDecl} {names : List String} {rules : Http.Rules} {config : Config}
    {g : Graph} {index : NameIndex} (h : Graph.prepare files names config.params = .ok (g, index)) :
    produce files names rules config = Project.generations ⟨g, index, rules, config⟩ := by
  rw [produce, Project.ofFiles, h]
  rfl

section

variable {files : List FileDecl} {names : List String} {rules : Http.Rules} {config : Config}

theorem exists_produce_of_settles
    (h : (Project.ofFiles files names rules config).toOption.any Project.settles = true) :
    ∃ all, produce files names rules config = .ok all := by
  obtain ⟨project, hProject, hSettles⟩ := any_toOption_iff.mp h
  obtain ⟨all, hAll⟩ := Project.exists_generations hSettles
  exact ⟨all, by rw [produce, hProject]; exact hAll⟩

theorem exists_prepare {all : List Generation} (h : produce files names rules config = .ok all) :
    ∃ g index, Graph.prepare files names config.params = .ok (g, index) ∧
      Project.generations ⟨g, index, rules, config⟩ = .ok all := by
  obtain ⟨project, hProject, hAll⟩ := bind_ok_iff.mp h
  obtain ⟨⟨g, index⟩, hPrepare, hSame⟩ := bind_ok_iff.mp hProject
  cases hSame
  exact ⟨g, index, hPrepare, hAll⟩

variable (hPath : config.params.importPath = none)
include hPath

/-- A file comes out the same by itself and with others. -/
theorem produce_one {g : Graph} {index : NameIndex}
    (h : Graph.prepare files names config.params = .ok (g, index)) {name : String} {place : Nat}
    (hPlace : g.fileByName? name = some place) :
    produce files [name] rules config
      = (Project.generation ⟨g, index, rules, config⟩ place).map fun generation => [generation] := by
  obtain ⟨hDecls, -⟩ := Graph.prepare_spec h
  have hOne : OnePackage files [name] config.params := by
    intro a hA b hB
    rw [List.mem_singleton.mp hA, List.mem_singleton.mp hB]
  have hFound : ∀ other ∈ [name], ∃ file ∈ files, file.name = other := by
    intro other hOther
    obtain ⟨file, hFile, hName⟩ := Graph.file?_of_fileByName? hPlace
    rw [List.mem_singleton.mp hOther]
    exact ⟨file.decl, hDecls ▸ List.mem_of_getElem? (Graph.decl_of_file? hFile), hName⟩
  obtain ⟨k, other, hOther, hMoved, hGet⟩ :=
    Graph.prepare_select hPath (List.cons_ne_nil name []) hFound hOne h
  obtain ⟨hOtherDecls, hPlaces⟩ := Graph.prepare_spec hOther
  rw [← Graph.fileByName?_congr (hDecls.trans hOtherDecls.symm)] at hPlaces
  have hToGenerate : k.toGenerate = [place] := by
    generalize k.toGenerate = places at hPlaces
    cases hPlaces with
    | cons hHead hRest =>
      cases hRest
      rw [hPlace] at hHead
      rw [Option.some.inj hHead]
  have hProjects : Project.Moved id ⟨g, index, rules, config⟩ ⟨k, other, rules, config⟩ :=
    ⟨hMoved, hGet, rfl, rfl⟩
  rw [produce_eq hOther, Project.generations, hToGenerate, (hProjects.generation place).eq]
  change [place].mapM _ = (Project.generation _ place).map _
  rw [List.mapM_cons]
  cases Project.generation ⟨k, other, rules, config⟩ place <;> rfl

/-- Files that are generated together come out as they do one by one. -/
theorem produce_each {all : List Generation} (h : produce files names rules config = .ok all) :
    List.Forall₂ (fun name generation => produce files [name] rules config = .ok [generation]) names all := by
  obtain ⟨g, index, hPrepare, hAll⟩ := exists_prepare h
  obtain ⟨-, hPlaces⟩ := Graph.prepare_spec hPrepare
  refine forall₂_trans ?_ hPlaces (forall₂_of_mapM hAll)
  intro name place generation hPlace hGeneration
  rw [produce_one hPath hPrepare hPlace, hGeneration]
  rfl

/-- Files of one package that can be generated one by one can be generated together. -/
theorem exists_produce (hNames : names ≠ []) (hPresent : ∀ name ∈ names, ∃ file ∈ files, file.name = name)
    (hEach : ∀ name ∈ names, ∃ one, produce files [name] rules config = .ok one)
    (hPackage : OnePackage files names config.params) :
    ∃ all, produce files names rules config = .ok all := by
  obtain ⟨first, rest, rfl⟩ := List.exists_cons_of_ne_nil hNames
  obtain ⟨one, hOne⟩ := hEach first List.mem_cons_self
  obtain ⟨_, _, hFirst, -⟩ := exists_prepare hOne
  obtain ⟨g, index, hPrepare, -, -⟩ := Graph.prepare_select hPath hNames hPresent hPackage hFirst
  obtain ⟨-, hPlaces⟩ := Graph.prepare_spec hPrepare
  rw [produce_eq hPrepare]
  refine exists_mapM_ok fun place hPlace => ?_
  obtain ⟨name, hName, hSame⟩ := exists_of_forall₂_right hPlaces place hPlace
  obtain ⟨found, hFound⟩ := hEach name hName
  rw [produce_one hPath hPrepare hSame] at hFound
  cases hGeneration : Project.generation ⟨g, index, rules, config⟩ place with
  | error e =>
    rw [hGeneration] at hFound
    cases hFound
  | ok generation => exact ⟨generation, rfl⟩

end

/-- A manifest with the entries of others; where several have an entry, that of the last counts. -/
def Manifest.IsUnion (manifests : List Manifest) (manifest : Manifest) : Prop :=
  ∀ key, manifest.entries.get? key = manifests.reverse.findSome? fun m => m.entries.get? key

theorem isUnion_ofGenerations (generations : List Generation) :
    (Manifest.ofGenerations generations).IsUnion
      (generations.map fun generation => Manifest.ofGenerations [generation]) := by
  intro key
  rw [Manifest.get?_ofGenerations, ← List.map_reverse, List.findSome?_map]
  rfl

/-- A run for several files succeeds if the runs for each of them do and the files are of one package. It
gives the outputs of those runs one behind the other, and the union of their manifests. -/
theorem produce_batch (files : List FileDecl) (names : List String) (rules : Http.Rules) (config : Config)
    (hPath : config.params.importPath = none) (hNames : names ≠ [])
    (hPresent : ∀ name ∈ names, ∃ file ∈ files, file.name = name) :
    ((∃ all, produce files names rules config = .ok all) ↔
      (∀ name ∈ names, ∃ one, produce files [name] rules config = .ok one) ∧
        OnePackage files names config.params) ∧
    ∀ all, produce files names rules config = .ok all → ∃ each : List (List Generation),
      List.Forall₂ (fun name one => produce files [name] rules config = .ok one) names each ∧
      all.flatMap Generation.files = each.flatMap (fun one => one.flatMap Generation.files) ∧
      (Manifest.ofGenerations all).IsUnion (each.map Manifest.ofGenerations) := by
  refine ⟨⟨?_, fun h => exists_produce hPath hNames hPresent h.1 h.2⟩, ?_⟩
  · rintro ⟨all, hAll⟩
    constructor
    · intro name hName
      obtain ⟨generation, -, hOne⟩ := exists_of_forall₂_right (produce_each hPath hAll).flip name hName
      exact ⟨[generation], hOne⟩
    · obtain ⟨g, index, hPrepare, -⟩ := exists_prepare hAll
      obtain ⟨-, -, hConsistent, -, -⟩ := Graph.prepare_ok_iff.mp hPrepare
      exact (Graph.consistent_iff hPresent).mp hConsistent
  · intro all hAll
    refine ⟨all.map fun generation => [generation], ?_, ?_, ?_⟩
    · exact List.forall₂_map_right_iff.mpr (produce_each hPath hAll)
    · rw [List.flatMap_map]
      simp only [List.flatMap_singleton]
    · rw [List.map_map]
      exact isUnion_ofGenerations all

/-- A file with a message and one with a service, both of one package. -/
def pairedFiles : List FileDecl :=
  [{ name := "a.proto", package := "p", messages := [.mk "M" [] [] [] [] [] [] [] false false []] },
   { name := "b.proto", package := "p", services := [{ name := "S" }] }]

/-- Both files of a run with their runs by themselves, the second file first. -/
theorem produce_batch_pairedFiles : ∃ all first second,
    produce pairedFiles ["b.proto", "a.proto"] {} {} = .ok all ∧
      produce pairedFiles ["b.proto"] {} {} = .ok first ∧ produce pairedFiles ["a.proto"] {} {} = .ok second ∧
      OnePackage pairedFiles ["b.proto", "a.proto"] {} ∧
      all.flatMap Generation.files = first.flatMap Generation.files ++ second.flatMap Generation.files ∧
      (Manifest.ofGenerations all).IsUnion [.ofGenerations first, .ofGenerations second] := by
  have hSettles : (Project.ofFiles pairedFiles ["b.proto", "a.proto"] {} {}).toOption.any
      Project.settles = true := by decide +kernel
  have hPresent : ∀ name ∈ ["b.proto", "a.proto"], ∃ file ∈ pairedFiles, file.name = name := by decide
  obtain ⟨all, hAll⟩ := exists_produce_of_settles hSettles
  obtain ⟨hIff, hEach⟩ := produce_batch pairedFiles ["b.proto", "a.proto"] {} {} rfl (List.cons_ne_nil _ _) hPresent
  obtain ⟨each, hRuns, hFiles, hUnion⟩ := hEach all hAll
  cases hRuns with
  | @cons _ first _ _ hFirst hRest =>
    cases hRest with
    | @cons _ second _ _ hSecond hNone =>
      cases hNone
      exact ⟨all, first, second, hAll, hFirst, hSecond, (hIff.mp ⟨all, hAll⟩).2, by simpa using hFiles, hUnion⟩

end ProtoBind
