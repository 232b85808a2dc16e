import ProtoBind.Disk
import ProtoBind.Proofs.Stages
import ProtoBind.Run

/-!
# A run does all or nothing

The manifest is written once, behind everything that can fail. A run that fails leaves the disk as it
was; one that succeeds answers with two files for each name to generate and changes at most the file of
the manifest.
-/

set_option autoImplicit false

namespace ProtoBind

open Naming Emit Wire

namespace Disk

theorem node?_put {disk : Disk} {place : Place} (hPlace : place ≠ []) (node : Node) (other : Place) :
    (disk.put place node).node? other = if other = place then some node else disk.node? other := by
  by_cases hSame : other = place
  · subst hSame
    simp [node?, put, hPlace]
  · rw [if_neg hSame]
    have hOther : (place == other) = false := beq_eq_false_iff_ne.mpr fun e => hSame e.symm
    simp only [node?, put, List.find?_cons, hOther, List.find?_filter]
    congr 3
    funext entry
    by_cases hEntry : entry.1 = other
    · simp [hEntry, hSame]
    · simp [hEntry]

theorem write_spec {disk changed : Disk} {path : String} {content : Bytes}
    (h : disk.write path content = .ok changed) :
    ∃ place, disk.locate path = .ok place ∧ disk.node? place ≠ some .folder ∧
      changed = disk.put place (.file content) := by
  unfold write at h
  cases hPlace : disk.locate path with
  | error fault => rw [hPlace] at h; cases h
  | ok place =>
    rw [hPlace] at h
    simp only [bind, Except.bind] at h
    split at h
    · cases h
    · rename_i hNode
      cases h
      exact ⟨place, rfl, hNode, rfl⟩

theorem walk_put {disk : Disk} {place : Place} (hNode : disk.node? place ≠ some .folder)
    (node : Node) {start : Place} {parts : List String} (h : disk.walk start parts = .ok place) :
    (disk.put place node).walk start parts = .ok place := by
  have hPlace : place ≠ [] := fun e => hNode (by rw [e]; rfl)
  induction parts generalizing start with
  | nil => exact h
  | cons part rest ih =>
    unfold walk at h ⊢
    cases hStart : disk.node? start with
    | none => rw [hStart] at h; cases h
    | some found =>
      cases found with
      | file content => rw [hStart] at h; cases h
      | folder =>
        -- A walk goes on from folders only, and no folder stands where the node is put.
        have hOther : start ≠ place := fun e => hNode (e ▸ hStart)
        rw [node?_put hPlace, if_neg hOther, hStart]
        rw [hStart] at h
        dsimp only at h ⊢
        split
        · rename_i hSkip
          rw [if_pos hSkip] at h
          exact ih h
        · rename_i hSkip
          rw [if_neg hSkip] at h
          split
          · rename_i hUp
            rw [if_pos hUp] at h
            exact ih h
          · rename_i hUp
            rw [if_neg hUp] at h
            split
            · rename_i hLong
              rw [if_pos hLong] at h
              cases h
            · rename_i hLong
              rw [if_neg hLong] at h
              exact ih h

theorem locate_put {disk : Disk} {path : String} {place : Place}
    (h : disk.locate path = .ok place) (hNode : disk.node? place ≠ some .folder) (node : Node) :
    (disk.put place node).locate path = .ok place := by
  unfold locate at h ⊢
  repeat' split at h
  all_goals first
    | cases h
    | skip
  rename_i hNul hEmpty hLong
  rw [if_neg hNul, if_neg hEmpty, if_neg hLong]
  exact walk_put hNode node h

/-- What was written is read back. -/
theorem read_of_write {disk changed : Disk} {path : String} {content : Bytes}
    (h : disk.write path content = .ok changed) : changed.read path = .ok content := by
  obtain ⟨place, hLocate, hNode, rfl⟩ := write_spec h
  have hPlace : place ≠ [] := fun e => hNode (by rw [e]; rfl)
  unfold read
  rw [locate_put hLocate hNode]
  simp only [bind, Except.bind]
  rw [node?_put hPlace, if_pos rfl]

def SameBut (place : Place) (disk changed : Disk) : Prop :=
  ∀ other, other ≠ place → changed.node? other = disk.node? other

theorem sameBut_of_write {disk changed : Disk} {path : String} {content : Bytes}
    (h : disk.write path content = .ok changed) :
    ∃ place, disk.locate path = .ok place ∧ SameBut place disk changed := by
  obtain ⟨place, hLocate, hNode, rfl⟩ := write_spec h
  have hPlace : place ≠ [] := fun e => hNode (by rw [e]; rfl)
  refine ⟨place, hLocate, ?_⟩
  intro other hOther
  rw [node?_put hPlace, if_neg hOther]

end Disk

namespace Manifest

theorem save_store (manifest : Manifest) (dir : String) (disk : Disk) :
    manifest.save Disk.store dir disk =
      if manifest.entries.toList.isEmpty then (.ok (), disk)
      else match manifest.merged (fileIn dir) (disk.read (fileIn dir)) with
        | .error e => (.error e, disk)
        | .ok content =>
          match disk.write (fileIn dir) content with
          | .error fault => (.error (.manifestAccess (fileIn dir) fault), disk)
          | .ok changed => (.ok (), changed) := by
  unfold save
  split
  · rfl
  · simp only [Disk.store, bind, StateT.bind]
    cases manifest.merged (fileIn dir) (disk.read (fileIn dir)) with
    | error e => rfl
    | ok content =>
      simp only [StateT.bind]
      cases disk.write (fileIn dir) content <;> rfl

theorem insert_ne_nil {table : Table String} (key value : String) :
    (table.insert key value).toList ≠ [] := by
  intro h
  have hFound := Table.get?_insert table key key value
  rw [if_pos rfl] at hFound
  simp only [Table.toList] at h
  rw [Table.get?, h] at hFound
  cases hFound

theorem entries_addTo_ne_nil {manifest : Manifest} {generation : Generation}
    (h : manifest.entries.toList ≠ [] ∨ generation.services ≠ []) :
    (generation.addTo manifest).entries.toList ≠ [] := by
  unfold Generation.addTo
  generalize generation.services = services at h ⊢
  induction services generalizing manifest with
  | nil => simpa using h
  | cons service rest ih =>
    rw [List.foldl_cons]
    exact ih (.inl (insert_ne_nil _ _))

theorem entries_foldl_ne_nil {manifest : Manifest} {generations : List Generation}
    (h : manifest.entries.toList ≠ [] ∨ ∃ generation ∈ generations, generation.services ≠ []) :
    (generations.foldl Generation.addTo manifest).entries.toList ≠ [] := by
  induction generations generalizing manifest with
  | nil => simpa using h
  | cons generation rest ih =>
    rw [List.foldl_cons]
    apply ih
    rcases h with h | ⟨other, hOther, hServices⟩
    · exact .inl (entries_addTo_ne_nil (.inl h))
    · rcases List.mem_cons.mp hOther with rfl | hOther
      · exact .inl (entries_addTo_ne_nil (.inr hServices))
      · exact .inr ⟨other, hOther, hServices⟩

theorem foldl_addTo_of_no_services {manifest : Manifest} {generations : List Generation}
    (h : ∀ generation ∈ generations, generation.services = []) :
    generations.foldl Generation.addTo manifest = manifest := by
  induction generations with
  | nil => rfl
  | cons generation rest ih =>
    have hHead : generation.addTo manifest = manifest := by
      rw [Generation.addTo, h generation List.mem_cons_self]
      rfl
    rw [List.foldl_cons, hHead]
    exact ih fun other hOther => h other (List.mem_cons_of_mem _ hOther)

/-- A manifest is without entries just where no file declares a service. -/
theorem isEmpty_ofGenerations (generations : List Generation) :
    (ofGenerations generations).entries.toList.isEmpty ↔
      ∀ generation ∈ generations, generation.services = [] := by
  constructor
  · intro h
    by_contra hSome
    push Not at hSome
    exact entries_foldl_ne_nil (.inr hSome) (List.isEmpty_iff.mp h)
  · intro h
    rw [ofGenerations, foldl_addTo_of_no_services h]
    rfl

end Manifest

/-- Services are named by their declarations, in both cases. -/
theorem names_of_services {scope : Scope} {rules : Http.Rules} {i : Nat} {decls : List ServiceDecl}
    {services : List Service} (h : scope.services rules i decls = .ok services) :
    services.map (fun service => (service.name, service.stem))
      = decls.map fun decl => (pascal decl.name, snake decl.name) := by
  induction decls generalizing i services with
  | nil =>
    cases h
    rfl
  | cons decl rest ih =>
    unfold Scope.services at h
    cases hMethods : scope.endpoints rules decl (SourcePath.service i) 0 [] decl.methods with
    | error e => rw [hMethods] at h; cases h
    | ok endpoints =>
      cases hRest : scope.services rules (i + 1) rest with
      | error e => simp only [hMethods, hRest, bind, Except.bind] at h; cases h
      | ok others =>
        simp only [hMethods, hRest, bind, Except.bind] at h
        cases h
        rw [List.map_cons, List.map_cons, ih hRest]

theorem services_spec {scope : Scope} {rules : Http.Rules} {i : Nat} {decls : List ServiceDecl}
    {services : List Service} (h : scope.services rules i decls = .ok services) :
    services.map (·.name) = decls.map fun decl => pascal decl.name := by
  have hNames := congrArg (List.map Prod.fst) (names_of_services h)
  rwa [List.map_map, List.map_map] at hNames

/-- What is made for a name to generate: the two files of the schema file with that name, and the
services that it declares. -/
structure MadeFor (project : Project) (name : String) (file : FileNode) (generation : Generation) :
    Prop where
  place : ∃ place, project.graph.fileByName? name = some place ∧
    project.graph.file? place = some file ∧ project.generation place = .ok generation
  named : file.decl.name = name
  model : generation.model.name = file.outputName project.config.params.paths .model
  api : generation.api.name = file.outputName project.config.params.paths .api
  services : generation.services = file.decl.services.map fun service => pascal service.name

theorem name_ofText {name text : String} {file : OutputFile} (h : OutputFile.ofText name text = .ok file) :
    file.name = name := by
  unfold OutputFile.ofText at h
  cases hFormat : Source.format name text with
  | error e => rw [hFormat] at h; cases h
  | ok content =>
    rw [hFormat] at h
    cases h
    rfl

theorem madeFor_of_generation {project : Project} {name : String} {place : Nat}
    {generation : Generation} (hPlace : project.graph.fileByName? name = some place)
    (h : project.generation place = .ok generation) :
    ∃ file, MadeFor project name file generation := by
  obtain ⟨file, hFile, hName⟩ := Graph.file?_of_fileByName? hPlace
  have hScope : ∀ pass, (project.scope place pass).file = file := by
    intro pass
    simp [Project.scope, Scope.file, hFile]
  have hMade := h
  unfold Project.generation at h
  cases hModel : project.model place with
  | error e => simp only [hModel, bind, Except.bind] at h; cases h
  | ok model =>
    cases hModelFile : OutputFile.ofText (project.outputName place .model) (project.modelText model) with
    | error e => simp only [hModel, hModelFile, bind, Except.bind] at h; cases h
    | ok modelFile =>
      cases hApi : project.api place with
      | error e => simp only [hModel, hModelFile, hApi, bind, Except.bind] at h; cases h
      | ok api =>
        cases hApiFile : OutputFile.ofText (project.outputName place .api) (project.apiText api) with
        | error e => simp only [hModel, hModelFile, hApi, hApiFile, bind, Except.bind] at h; cases h
        | ok apiFile =>
          simp only [hModel, hModelFile, hApi, hApiFile, bind, Except.bind] at h
          cases h
          refine ⟨file, ⟨place, hPlace, hFile, hMade⟩, hName, ?_, ?_, ?_⟩
          · rw [name_ofText hModelFile, Project.outputName, hScope]
          · rw [name_ofText hApiFile, Project.outputName, hScope]
          · unfold Project.api ApiFile.ofScope at hApi
            split at hApi
            · cases hApi
            · rename_i services hServices
              cases hApi
              rw [hScope] at hServices
              exact services_spec hServices

theorem ofBytes_spec {bytes : Bytes} {config : Config} {project : Project}
    (h : Project.ofBytes bytes config = .ok project) :
    ∃ request, Request.decode bytes = .ok request ∧ project.config = config ∧
      project.graph.decls = request.files ∧
      List.Forall₂ (fun name place => project.graph.fileByName? name = some place)
        request.filesToGenerate project.graph.toGenerate := by
  unfold Project.ofBytes at h
  cases hRequest : Request.decode bytes with
  | error e => simp only [hRequest, bind, Except.bind] at h; cases h
  | ok request =>
    cases hGraph : Graph.prepare request.files request.filesToGenerate config.params with
    | error e => simp only [hRequest, hGraph, bind, Except.bind] at h; cases h
    | ok prepared =>
      obtain ⟨graph, index⟩ := prepared
      cases hRules : Http.Rules.ofRequest bytes with
      | error e => simp only [hRequest, hGraph, hRules, bind, Except.bind] at h; cases h
      | ok rules =>
        simp only [hRequest, hGraph, hRules, bind, Except.bind] at h
        cases h
        exact ⟨request, rfl, rfl, Graph.prepare_spec hGraph⟩

theorem prepare_of_ofBytes {bytes : Bytes} {config : Config} {project : Project} {request : Request}
    (hRequest : Request.decode bytes = .ok request) (h : Project.ofBytes bytes config = .ok project) :
    Graph.prepare request.files request.filesToGenerate config.params = .ok (project.graph, project.index) ∧
      project.config = config := by
  obtain ⟨decoded, hDecoded, hRest⟩ := bind_ok_iff.mp h
  obtain rfl : request = decoded := Except.ok.inj (hRequest.symm.trans hDecoded)
  obtain ⟨⟨g, index⟩, hPrepare, hRest⟩ := bind_ok_iff.mp hRest
  obtain ⟨rules, -, hLast⟩ := bind_ok_iff.mp hRest
  cases hLast
  exact ⟨hPrepare, rfl⟩

/-- Every name to generate gets its files, in the order of the request. -/
theorem generateAll_spec {bytes : Bytes} {config : Config} {generations : List Generation}
    (h : generateAll bytes config = .ok generations) :
    ∃ request project, Request.decode bytes = .ok request ∧
      Project.ofBytes bytes config = .ok project ∧ project.graph.decls = request.files ∧
      List.Forall₂ (fun name generation => ∃ file, MadeFor project name file generation)
        request.filesToGenerate generations := by
  unfold generateAll at h
  cases hProject : Project.ofBytes bytes config with
  | error e => rw [hProject] at h; cases h
  | ok project =>
    rw [hProject] at h
    obtain ⟨request, hRequest, _, hDecls, hPlaces⟩ := ofBytes_spec hProject
    refine ⟨request, project, hRequest, rfl, hDecls, ?_⟩
    refine forall₂_trans ?_ hPlaces (forall₂_of_mapM h)
    intro name place generation hPlace hGeneration
    exact madeFor_of_generation hPlace hGeneration

theorem generate_store (bytes : Bytes) (config : Config) (disk : Disk) :
    generate Disk.store bytes config disk =
      match generateAll bytes config with
      | .error e => (.error e, disk)
      | .ok generations =>
        match (Manifest.ofGenerations generations).save Disk.store config.params.manifestDir disk with
        | (.error e, after) => (.error e, after)
        | (.ok (), after) => (.ok (.ofGenerations generations), after) := by
  unfold generate
  cases generateAll bytes config with
  | error e => rfl
  | ok generations =>
    simp only [bind, StateT.bind]
    cases hSave : (Manifest.ofGenerations generations).save Disk.store config.params.manifestDir disk with
    | mk outcome after => cases outcome <;> rfl

/-- The file of the manifest in the folder that a configuration names. -/
def Config.manifestFile (config : Config) : String :=
  Manifest.joinPath config.params.manifestDir "handler.json"

/-- How a run with these generations may leave the disk: as it was if no file declares a service, and
otherwise with the merged manifest in its file and all else as it was. -/
structure LeavesManifest (config : Config) (generations : List Generation) (before after : Disk) :
    Prop where
  untouched : (∀ generation ∈ generations, generation.services = []) → after = before
  merged : (∃ generation ∈ generations, generation.services ≠ []) →
    ∃ place content, before.locate config.manifestFile = .ok place ∧
      Disk.SameBut place before after ∧ after.read config.manifestFile = .ok content ∧
      (Manifest.ofGenerations generations).merged config.manifestFile
        (before.read config.manifestFile) = .ok content

theorem save_leaves {config : Config} {generations : List Generation} {before after : Disk}
    (h : (Manifest.ofGenerations generations).save Disk.store config.params.manifestDir before
      = (.ok (), after)) : LeavesManifest config generations before after := by
  rw [Manifest.save_store] at h
  split at h
  · rename_i hEmpty
    cases h
    have hNone := (Manifest.isEmpty_ofGenerations generations).mp hEmpty
    refine ⟨fun _ => rfl, ?_⟩
    rintro ⟨generation, hMem, hServices⟩
    exact absurd (hNone generation hMem) hServices
  · rename_i hEmpty
    refine ⟨fun hNone => absurd ((Manifest.isEmpty_ofGenerations generations).mpr hNone) hEmpty, ?_⟩
    intro _
    split at h
    · cases h
    · rename_i content hContent
      split at h
      · cases h
      · rename_i changed hWrite
        cases h
        obtain ⟨place, hPlace, hSame⟩ := Disk.sameBut_of_write hWrite
        exact ⟨place, content, hPlace, hSame, Disk.read_of_write hWrite, hContent⟩

theorem save_error {manifest : Manifest} {dir : String} {before after : Disk} {e : Error}
    (h : manifest.save Disk.store dir before = (.error e, after)) : after = before := by
  rw [Manifest.save_store] at h
  repeat' split at h
  all_goals
    cases h
    try rfl

/-- A run that fails leaves the disk as it was. One that succeeds answers with the model and the API of
every name to generate, in the order of the request, and touches the manifest only for services. -/
theorem generate_all_or_nothing (bytes : Bytes) (config : Config) (before : Disk) :
    (∀ e after, generate Disk.store bytes config before = (.error e, after) → after = before) ∧
      ∀ response after, generate Disk.store bytes config before = (.ok response, after) →
        ∃ request project generations, Request.decode bytes = .ok request ∧
          Project.ofBytes bytes config = .ok project ∧ project.graph.decls = request.files ∧
          List.Forall₂ (fun name generation => ∃ file, MadeFor project name file generation)
            request.filesToGenerate generations ∧
          response.files = generations.flatMap (fun generation => [generation.model, generation.api]) ∧
          response.files.length = 2 * request.filesToGenerate.length ∧
          LeavesManifest config generations before after := by
  rw [generate_store]
  constructor
  · intro e after h
    split at h
    · cases h
      rfl
    · split at h
      · rename_i hSave
        cases h
        exact save_error hSave
      · cases h
  · intro response after h
    split at h
    · cases h
    · rename_i generations hGenerations
      split at h
      · cases h
      · rename_i hSave
        cases h
        obtain ⟨request, project, hRequest, hProject, hDecls, hMade⟩ := generateAll_spec hGenerations
        refine ⟨request, project, generations, hRequest, hProject, hDecls, hMade, rfl, ?_,
          save_leaves hSave⟩
        rw [hMade.length_eq]
        simp [Response.ofGenerations, Generation.files, List.length_flatMap, Nat.mul_comm]

end ProtoBind
