import ProtoBind.Error
import ProtoBind.Table
import ProtoBind.Text.Blank

/-!
# Settings

The parameter string of a request, a list of `key` or `key=value` entries between commas, and what
stays fixed during a run.
-/

set_option autoImplicit false

namespace ProtoBind

open Text

inductive PathsMode where
  /-- In a directory named for the package. -/
  | byImport
  /-- Next to the schema file. -/
  | sourceRelative
  deriving DecidableEq, Repr, Inhabited

structure Parameters where
  /-- What stands before an import path in a module path. -/
  importPrefix : String := "crate/"
  /-- The import path of every file to generate. -/
  importPath : Option String := none
  paths : PathsMode := .byImport
  /-- The root of the crate that the output becomes part of. -/
  repo : String := "crate"
  /-- The directory of the handler manifest. -/
  manifestDir : String := "."
  /-- Import paths given file by file. -/
  importMap : Table String := .empty

namespace Parameters

def entry (piece : List Char) : String × String :=
  match splitOnce '=' piece with
  | some (key, value) => (String.ofList key, String.ofList value)
  | none => (String.ofList piece, "")

def entries (parameter : String) : List (String × String) :=
  (splitOn ',' parameter.toList).map entry

/-- The parameters with one more entry, beside the prefix given so far. -/
def add (state : Parameters × Option String) (item : String × String) :
    Except Error (Parameters × Option String) :=
  let (params, importPrefix) := state
  let (key, value) := item
  if key = "import_prefix" then .ok (params, some value)
  else if key = "import_path" then
    .ok ({ params with importPath := if value = "" then none else some value }, importPrefix)
  else if key = "paths" then
    if value = "import" then .ok ({ params with paths := .byImport }, importPrefix)
    else if value = "source_relative" then .ok ({ params with paths := .sourceRelative }, importPrefix)
    else .error (.invalidPathType value)
  else if key = "repo" then
    .ok (if value = "" then params else { params with repo := value }, importPrefix)
  else if key = "path" then
    .ok (if value = "" then params else { params with manifestDir := value }, importPrefix)
  else match key.toList with
    | 'M' :: file =>
      .ok ({ params with importMap := params.importMap.insert (String.ofList file) value }, importPrefix)
    | _ => .ok (params, importPrefix)

/-- The parameters with the prefix that was given, or the one that follows from the repository. -/
def withPrefix (params : Parameters) (importPrefix : Option String) : Parameters :=
  match importPrefix with
  | none | some "" => { params with importPrefix := params.repo ++ "/" }
  | some given => { params with importPrefix := given }

def parse (parameter : String) : Except Error Parameters :=
  match (entries parameter).foldlM add ({}, none) with
  | .error e => .error e
  | .ok (params, importPrefix) => .ok (params.withPrefix importPrefix)

end Parameters

def defaultErrorCode : Int := 500

/-- The error code that the environment asks for. Blanks around it do not count, and a blank value
means the default. -/
def readErrorCode (value : Option String) : Except Error Int :=
  match value with
  | none => .ok defaultErrorCode
  | some value =>
    match trim value.toList with
    | [] => .ok defaultErrorCode
    | cs =>
      match readInt64 cs with
      | .ok code => .ok code
      | .error fault => .error (.invalidErrorCode (String.ofList cs) fault)

structure Config where
  params : Parameters := {}
  /-- The code in the failures that emitted routes report. -/
  errorCode : Int := defaultErrorCode

namespace Config

/-- The configuration from the parameter of a request and the error code of the environment; a fault
of the parameter comes first. -/
def ofEnvironment (parameter : String) (errorCode : Option String) : Except Error Config := do
  let params ← Parameters.parse parameter
  let errorCode ← readErrorCode errorCode
  return { params, errorCode }

end Config

end ProtoBind
