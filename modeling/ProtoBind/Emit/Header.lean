import ProtoBind.Emit.Reference

/-!
# Headers and names of emitted files
-/

set_option autoImplicit false

namespace ProtoBind

open Naming Emit

namespace Emit

def banner : String := "Code generated by protoc-gen-rain. DO NOT EDIT."

/-- The comment of an emitted file: the banner, the schema file, and what that says about itself. -/
def header (file : FileNode) : List Line :=
  [.innerDoc banner,
    .innerDoc (if file.decl.deprecated then file.decl.name ++ " is a deprecated file."
      else "source: " ++ file.decl.name)]
    ++ (match file.comment? SourcePath.package with
      | none => []
      | some comment => .innerDoc "" :: (Text.commentLines comment).map .innerDoc)
    ++ [.blank]

def Pass.suffix : Pass → String
  | .model => "_model.rs"
  | .api => "_api.rs"

end Emit

namespace FileNode

/-- The directory of the files that are emitted for a schema file. -/
def outputDirectory (paths : PathsMode) (file : FileNode) : String :=
  match paths with
  | .byImport => file.packageName
  | .sourceRelative => dirName file.decl.name

def outputName (paths : PathsMode) (pass : Pass) (file : FileNode) : String :=
  let directory := file.outputDirectory paths
  let name := baseName file.decl.name ++ pass.suffix
  if directory = "." ∨ directory = "" then name else directory ++ "/" ++ name

end FileNode

end ProtoBind
