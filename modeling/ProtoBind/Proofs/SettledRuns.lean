import ProtoBind.Proofs.AllOrNothing
import ProtoBind.Proofs.FileOrder
import ProtoBind.Proofs.SecondReading

/-!
# Runs that come through

A run succeeds if its texts can be formatted, and that can be told from the pieces of these texts: neither a
text nor the form that it is laid out in has to be put together for it.
-/

set_option autoImplicit false

namespace ProtoBind

open Emit Source Wire

/-! ### Texts in pieces -/

def parseChars (cs : List Char) : Option SourceFile :=
  let (shebang, cs) := splitShebang (dropOrderMark cs)
  (lex cs).bind (Parser.whole (Parser.file shebang))

theorem parse_join (pieces : List String) :
    SourceFile.parse (String.join pieces) = parseChars (pieces.flatMap String.toList) := by
  rw [← String.toList_join]
  rfl

def layoutPieces (docs : Layout.Docs) : List String :=
  (Layout.renderAll (some .inconsistent) 0 (Layout.measureAll docs 0).cells {}).pieces.reverse

def formats (lines : List Line) : Bool :=
  match parseChars (lines.flatMap fun line => line.text.toList ++ ['\n']) with
  | none => false
  | some file =>
    let docs := SourceFile.doc (emittedGrammar.sortImports file)
    (parseChars ((layoutPieces docs).flatMap String.toList)).isSome

theorem ofText_of_formats {lines : List Line} (h : formats lines = true) (name : String) :
    ∃ file, OutputFile.ofText name (render lines) = .ok file := by
  have hRead : SourceFile.parse (render lines)
      = parseChars (lines.flatMap fun line => line.text.toList ++ ['\n']) := by
    rw [render, parse_join, List.flatMap_map]
    simp only [String.toList_append]
    rfl
  unfold formats at h
  split at h
  · cases h
  · rename_i file hFile
    obtain ⟨again, hAgain⟩ := Option.isSome_iff_exists.mp h
    have hSecond : SourceFile.parse (SourceFile.render (emittedGrammar.sortImports file)) = some again :=
      (parse_join _).trans hAgain
    refine ⟨⟨name, SourceFile.render (emittedGrammar.sortImports file)⟩, ?_⟩
    rw [OutputFile.ofText, format_of_parse (hRead.trans hFile) hSecond]
    rfl

/-- A head of as many columns as a line has stays whole: the brace that closes an empty body is not measured
with it. -/
example :
    let line := "pub fn register_user_admin_handler<H: UserAdminHandler>(_g: &mut router::Engine, _h: H) \x7b\x7d\n"
    (parseChars line.toList).map (fun file => (layoutPieces (SourceFile.doc file)).flatMap String.toList)
      = some line.toList := by
  decide +kernel

/-! ### Projects and runs -/

def Project.settles (project : Project) : Bool :=
  project.graph.toGenerate.all fun place =>
    match project.model place, project.api place with
    | .ok model, .ok api => formats (model.lines project.config.params) && formats (api.lines project.config)
    | _, _ => false

theorem exists_generation {project : Project} {place : Nat} {model : ModelFile} {api : ApiFile}
    (hModel : project.model place = .ok model) (hApi : project.api place = .ok api)
    (hModelText : formats (model.lines project.config.params) = true)
    (hApiText : formats (api.lines project.config) = true) :
    ∃ generation, project.generation place = .ok generation := by
  obtain ⟨modelFile, hModelFile⟩ := ofText_of_formats hModelText (project.outputName place .model)
  obtain ⟨apiFile, hApiFile⟩ := ofText_of_formats hApiText (project.outputName place .api)
  refine ⟨{ model := modelFile, api := apiFile, services := api.services.map (·.name) }, ?_⟩
  rw [← Project.modelText] at hModelFile
  rw [← Project.apiText] at hApiFile
  rw [Project.generation, hModel]
  dsimp only [bind, Except.bind]
  rw [hModelFile, hApi]
  dsimp only
  rw [hApiFile]
  rfl

theorem Project.exists_generations {project : Project} (h : project.settles = true) :
    ∃ generations, project.generations = .ok generations := by
  apply exists_mapM_ok
  intro place hPlace
  have hBoth := List.all_eq_true.mp h place hPlace
  split at hBoth
  · rename_i model api hModel hApi
    obtain ⟨hModelText, hApiText⟩ := Bool.and_eq_true_iff.mp hBoth
    exact exists_generation hModel hApi hModelText hApiText
  · cases hBoth

section

variable {bytes : Bytes} {config : Config} {request : Request} (hRequest : Request.decode bytes = .ok request)
include hRequest

/-- What holds of the project of a request holds of that of its bytes. -/
theorem exists_project {holds : Project → Bool}
    (h : (Project.ofRequest request config).toOption.any holds = true) :
    ∃ project, Project.ofBytes bytes config = .ok project ∧ holds project = true := by
  rw [Project.ofBytes_eq, hRequest]
  exact any_toOption_iff.mp h

/-- A run succeeds if the project of its request does. -/
theorem exists_generateAll_of_settles
    (h : (Project.ofRequest request config).toOption.any Project.settles = true) :
    ∃ generations, generateAll bytes config = .ok generations := by
  obtain ⟨project, hProject, hSettles⟩ := exists_project hRequest h
  obtain ⟨generations, hAll⟩ := Project.exists_generations hSettles
  exact ⟨generations, by rw [generateAll, hProject]; exact hAll⟩

end

end ProtoBind
