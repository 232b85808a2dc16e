import ProtoBind.Generation
import ProtoBind.Http.Request

/-!
# Runs

From the bytes of a request to the response. Everything that can fail comes before the manifest is
saved, so a run that fails leaves every file as it was.
-/

set_option autoImplicit false

namespace ProtoBind

open Http Wire

structure Response where
  files : List OutputFile
  deriving DecidableEq, Repr

namespace Response

/-- The features that schema files may use: fields that are optional by their own oneof. -/
def features : Nat := 1

def encodeFile (file : OutputFile) : Bytes :=
  encodeDelimited 1 (utf8 file.name) ++ encodeDelimited 15 (utf8 file.content)

def encode (response : Response) : Bytes :=
  encodeInteger 2 features ++ response.files.flatMap fun file => encodeDelimited 15 (encodeFile file)

def ofGenerations (generations : List Generation) : Response :=
  ⟨generations.flatMap Generation.files⟩

end Response

/-- The project in the bytes of a request. The parameter of the request itself does not count. -/
def Project.ofBytes (bytes : Bytes) (config : Config) : Except Error Project := do
  let request ← Request.decode bytes
  let (graph, index) ← Graph.prepare request.files request.filesToGenerate config.params
  let rules ← Rules.ofRequest bytes
  return { graph, index, rules, config }

def generateAll (bytes : Bytes) (config : Config) : Except Error (List Generation) := do
  let project ← Project.ofBytes bytes config
  project.generations

def generate {m : Type → Type} [Monad m] (store : FileStore m) (bytes : Bytes) (config : Config) :
    m (Except Error Response) :=
  match generateAll bytes config with
  | .error e => pure (.error e)
  | .ok generations => do
    match ← (Manifest.ofGenerations generations).save store config.params.manifestDir with
    | .error e => return .error e
    | .ok () => return .ok (.ofGenerations generations)

/-- The configuration that a request and the environment ask for. -/
def Config.ofRequest (bytes : Bytes) (errorCode : Option String) : Except Error Config := do
  Config.ofEnvironment (← Request.parameterOf bytes) errorCode

/-- Answers a request as its own parameter and the environment say. -/
def generateFor {m : Type → Type} [Monad m] (store : FileStore m) (bytes : Bytes)
    (errorCode : Option String) : m (Except Error Response) :=
  match Config.ofRequest bytes errorCode with
  | .error e => pure (.error e)
  | .ok config => generate store bytes config

end ProtoBind
