import ProtoBind.Naming.Case
import ProtoBind.Text.Blank

/-!
# Slash-separated paths

Base names, directories, and the module paths that import paths stand for.
-/

set_option autoImplicit false

namespace ProtoBind.Naming

open ProtoBind.Text

def lastSegment (path : List Char) : List Char :=
  match splitLast '/' path with
  | some (_, name) => name
  | none => path

/-- A file name without its extension. A name that only begins with a dot keeps it. -/
def dropExtension (name : List Char) : List Char :=
  match splitLast '.' name with
  | some (c :: stem, _) => c :: stem
  | _ => name

def baseName (path : String) : String := String.ofList (dropExtension (lastSegment path.toList))

/-- Everything before the last slash, or a dot when there is none. -/
def dirName (path : String) : String :=
  match splitLast '/' path.toList with
  | none => "."
  | some ([], _) => "/"
  | some (dir, _) => String.ofList dir

def pathRoots : List String := ["crate", "self", "super"]

/-- The segments of the module path of a slash-separated path: empty ones and dots are left out, and
the first may be a path root. -/
def moduleSegments (path : String) : List String :=
  let segments := ((splitOn '/' path.toList).map String.ofList).filter fun s => s ≠ "" ∧ s ≠ "."
  segments.mapIdx fun i segment =>
    if i = 0 ∧ segment ∈ pathRoots then segment else moduleName segment

def modulePath (path : String) : String := "::".intercalate (moduleSegments path)

end ProtoBind.Naming
