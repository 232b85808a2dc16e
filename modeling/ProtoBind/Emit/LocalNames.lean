import ProtoBind.Emit.Line
import ProtoBind.Graph.Packages
import ProtoBind.Naming.Fresh
import ProtoBind.Table

/-!
# Local names of packages

The packages that an emitted file refers to, each under a name of its own, and the `use` items that
introduce these names.
-/

set_option autoImplicit false

namespace ProtoBind.Emit

open Naming

/-- Module names that emitted code uses for something else. -/
def reservedModules : List String :=
  ["std", "core", "alloc", "serde", "serde_json", "router", "binding"]

/-- The local names of packages in the order in which the packages are first mentioned, each behind the
path of its package. -/
structure LocalNames where
  entries : List (String × String) := []

def numbered (base : String) : Nat → String
  | 0 => base
  | n + 1 => base ++ toString (n + 1)

namespace LocalNames

instance : Inhabited LocalNames := ⟨{}⟩

def get? (names : LocalNames) (importPath : String) : Option String := entryAt? importPath names.entries

/-- The names that no further package may get. -/
def busy (names : LocalNames) : List String :=
  names.entries.map Prod.snd ++ keywords ++ reservedModules

/-- The name that the next package would get: what its path ends in, numbered where that is taken. -/
def fresh (names : LocalNames) (importPath : String) : String :=
  firstFree names.busy (numbered (moduleName (baseName importPath)))

def add (names : LocalNames) (importPath : String) : LocalNames :=
  match names.get? importPath with
  | some _ => names
  | none => ⟨names.entries ++ [(importPath, names.fresh importPath)]⟩

/-- The names of the packages in a list of import paths, in the order of first mention. -/
def ofPaths (importPaths : List String) : LocalNames := importPaths.foldl add {}

def get (names : LocalNames) (importPath : String) : String := (names.get? importPath).getD ""

/-- The packages and their names in the order of the import paths. -/
def toList (names : LocalNames) : List (String × String) := (Table.ofList names.entries).toList

end LocalNames

end ProtoBind.Emit

namespace ProtoBind

open Naming Emit

def Parameters.routerSegments (params : Parameters) : List String :=
  moduleSegments (params.repo ++ "/router")

def Parameters.routerPath (params : Parameters) : String := "::".intercalate params.routerSegments

/-- The segments of the module path of a package. The well-known types live beside the router. -/
def Parameters.packageSegments (params : Parameters) (importPath : String) : List String :=
  if importPath = wellKnownImportPath then params.routerSegments ++ ["wkt"]
  else moduleSegments (params.importPrefix ++ importPath)

/-- The item that introduces a package under its local name, which is written only where the module
path does not end in it. -/
def Parameters.packageUse (params : Parameters) (importPath name : String) : String :=
  let segments := params.packageSegments importPath
  let path := "::".intercalate segments
  if segments.getLast? = some name then "use " ++ path ++ ";"
  else "use " ++ path ++ " as " ++ name ++ ";"

def Parameters.packageUses (params : Parameters) (names : LocalNames) : List Line :=
  names.toList.map fun (importPath, name) => code (params.packageUse importPath name)

end ProtoBind
