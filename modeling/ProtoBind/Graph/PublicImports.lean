import ProtoBind.Graph.Basic
import ProtoBind.Naming.Case

/-!
# Public imports

A file passes on what the files it imports publicly declare themselves: their messages but for map
entries, their enums and their extensions.
-/

set_option autoImplicit false

namespace ProtoBind

open Naming

def FileNode.exports (file : FileNode) (i : Nat) : List Symbol :=
  ((List.range file.messages.length).filter fun k =>
      (file.messages[k]?).any fun message => !message.decl.isMapEntry).map (.message i)
    ++ (List.range file.enums.length).map (.enum i)
    ++ (List.range file.decl.extensions.length).map (.extension i)

namespace Graph

/-- The place of the file that the `index`-th import of a file names. -/
def dependency (g : Graph) (file : FileNode) (index : Int) : Except Error Nat :=
  let name := if 0 ≤ index then file.decl.imports[index.toNat]? else none
  match name.bind g.fileByName? with
  | some place => .ok place
  | none => .error (.dependencyNotFound (name.getD ("#" ++ toString index)) file.decl.name)

/-- The places of the files that a file imports publicly, in order. -/
def publicDependencies (g : Graph) (file : FileNode) : Except Error (List Nat) :=
  file.decl.publicImports.mapM (g.dependency file)

def publicSymbols (g : Graph) (file : FileNode) : Except Error (List Symbol) :=
  match g.publicDependencies file with
  | .error e => .error e
  | .ok places => .ok (places.flatMap fun place => ((g.file? place).map (·.exports place)).getD [])

/-- Adds to each file what it passes on, up to the first file with a dependency that is missing. -/
def exportFiles (g : Graph) : List FileNode → List FileNode × Option Error
  | [] => ([], none)
  | file :: rest =>
    match g.publicSymbols file with
    | .error e => (file :: rest, some e)
    | .ok symbols =>
      let (rest, error) := g.exportFiles rest
      ({ file with imported := file.imported ++ symbols } :: rest, error)

/-- The graph with all that could be passed on, besides the error that ended it. -/
def exportReachable (g : Graph) : Graph × Option Error :=
  let (files, error) := g.exportFiles g.files
  ({ g with files }, error)

/-- The graph with what the files pass on, if no dependency is missing. -/
def exportPublicImports (g : Graph) : Except Error Graph :=
  match g.exportReachable with
  | (g, none) => .ok g
  | (_, some e) => .error e

/-- The names that a symbol declares in emitted code: a message its structure, an enum its type and
its constants, an extension nothing. -/
def exportedNames (g : Graph) : Symbol → List String
  | .message file index =>
    ((g.message? file index).map fun m => [typePathName m.typeName]).getD []
  | .enum file index =>
    ((g.enum? file index).map fun e => typePathName e.typeName :: e.constants).getD []
  | .extension _ _ => []
  | .imported _ target => g.exportedNames target

end Graph

end ProtoBind
