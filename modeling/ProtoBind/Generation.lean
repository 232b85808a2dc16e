import ProtoBind.Manifest.Basic
import ProtoBind.Naming.Path
import ProtoBind.Project
import ProtoBind.Source.Format

/-!
# Generated files

For every schema file to generate there are two files, a model and an API. `Project.generations` makes
them in the order of the request and stops at the first error.
-/

set_option autoImplicit false

namespace ProtoBind

open Naming

structure OutputFile where
  name : String
  content : String
  deriving DecidableEq, Repr

structure Generation where
  model : OutputFile
  api : OutputFile
  /-- The services of the API, in the case of types. -/
  services : List String
  deriving DecidableEq, Repr

namespace Generation

def files (generation : Generation) : List OutputFile := [generation.model, generation.api]

def dir (generation : Generation) : String := dirName generation.api.name

def addTo (manifest : Manifest) (generation : Generation) : Manifest :=
  generation.services.foldl (fun manifest service => manifest.add generation.dir service) manifest

end Generation

def OutputFile.ofText (name text : String) : Except Error OutputFile :=
  (Source.format name text).map fun content => { name, content }

namespace Project

def generation (project : Project) (place : Nat) : Except Error Generation := do
  let model ← project.model place
  let modelFile ← OutputFile.ofText (project.outputName place .model) (project.modelText model)
  let api ← project.api place
  let apiFile ← OutputFile.ofText (project.outputName place .api) (project.apiText api)
  return { model := modelFile, api := apiFile, services := api.services.map (·.name) }

def generations (project : Project) : Except Error (List Generation) :=
  project.graph.toGenerate.mapM project.generation

end Project

def Manifest.ofGenerations (generations : List Generation) : Manifest :=
  generations.foldl Generation.addTo {}

end ProtoBind
