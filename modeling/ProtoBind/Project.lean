import ProtoBind.Emit.Api
import ProtoBind.Emit.Model
import ProtoBind.Graph.Constants
import ProtoBind.Graph.Linking

/-!
# Projects

The files of a request with everything that emission looks at. `Graph.prepare` takes the files through
all stages before emission; `Project.draft` prints what is emitted for one file, still unformatted.
-/

set_option autoImplicit false

namespace ProtoBind

open Emit Http

/-- The graph of a list of files with packages, constants and public imports, and its name index. -/
def Graph.prepare (files : List FileDecl) (generate : List String) (params : Parameters) :
    Except Error (Graph × NameIndex) := do
  let graph ← Graph.ofFiles files generate
  let graph ← graph.resolvePackages params
  let graph := graph.withConstants
  let index ← NameIndex.build graph
  let graph ← graph.exportPublicImports
  return (graph, index)

structure Project where
  graph : Graph
  index : NameIndex
  rules : Rules
  config : Config

structure Draft where
  modelName : String
  model : String
  apiName : String
  api : String
  /-- The services of the API, in the case of types. -/
  services : List String
  deriving DecidableEq, Repr

namespace Project

/-- The schema file at a place of the request, seen from one of the files emitted for it. -/
def scope (project : Project) (place : Nat) (pass : Pass) : Scope where
  graph := project.graph
  index := project.index
  place := place
  pass := pass

/-- The name of a file that is emitted for the schema file at a place of the request. -/
def outputName (project : Project) (place : Nat) (pass : Pass) : String :=
  (project.scope place pass).file.outputName project.config.params.paths pass

def model (project : Project) (place : Nat) : Except Error ModelFile :=
  ModelFile.ofScope (project.scope place .model)

def api (project : Project) (place : Nat) : Except Error ApiFile :=
  ApiFile.ofScope (project.scope place .api) project.rules

def modelText (project : Project) (model : ModelFile) : String :=
  render (model.lines project.config.params)

def apiText (project : Project) (api : ApiFile) : String := render (api.lines project.config)

/-- What is emitted for the schema file at a place of the request. -/
def draft (project : Project) (place : Nat) : Except Error Draft := do
  let model ← project.model place
  let api ← project.api place
  return {
    modelName := project.outputName place .model, model := project.modelText model,
    apiName := project.outputName place .api, api := project.apiText api,
    services := api.services.map (·.name) }

def drafts (project : Project) : List (Except Error Draft) :=
  project.graph.toGenerate.map project.draft

end Project

end ProtoBind
