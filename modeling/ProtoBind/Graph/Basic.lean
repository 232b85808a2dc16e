import ProtoBind.Error
import ProtoBind.Schema.Decl

/-!
# The graph of a request

Every file with its messages and enums at all depths, each known by the source path that leads to it.
Packages, constant names and public imports are filled in later.
-/

set_option autoImplicit false

namespace ProtoBind

/-- The field numbers and indices that lead from a file to one of its elements. -/
abbrev SourcePath := List Int

namespace SourcePath

def key (path : SourcePath) : String := ",".intercalate (path.map toString)

def package : SourcePath := [2]

def message (i : Nat) : SourcePath := [4, i]

def enum (i : Nat) : SourcePath := [5, i]

def service (i : Nat) : SourcePath := [6, i]

def field (path : SourcePath) (i : Nat) : SourcePath := path ++ [2, (i : Int)]

def nested (path : SourcePath) (i : Nat) : SourcePath := path ++ [3, (i : Int)]

def nestedEnum (path : SourcePath) (i : Nat) : SourcePath := path ++ [4, (i : Int)]

def oneof (path : SourcePath) (i : Nat) : SourcePath := path ++ [8, (i : Int)]

def value (path : SourcePath) (i : Nat) : SourcePath := path ++ [2, (i : Int)]

def method (path : SourcePath) (i : Nat) : SourcePath := path ++ [2, (i : Int)]

end SourcePath

structure MessageNode where
  decl : MessageDecl
  /-- The names from the outermost message to this one. -/
  typeName : List String
  path : SourcePath
  /-- The path of the message that declares this one. -/
  parent : Option SourcePath
  /-- Whether a group field of the parent declares the message. -/
  group : Bool

structure EnumNode where
  decl : EnumDecl
  typeName : List String
  path : SourcePath
  parent : Option SourcePath
  /-- The constants of the values, once they have been named. -/
  constants : List String := []

instance : Inhabited MessageNode := ⟨⟨default, [], [], none, false⟩⟩

instance : Inhabited EnumNode := ⟨⟨{}, [], [], none, []⟩⟩

/-- Something that can be named from another file: a file by its place in the request, and a place
in one of the lists of that file. -/
inductive Symbol where
  | message (file index : Nat)
  | enum (file index : Nat)
  | extension (file index : Nat)
  /-- A symbol that `file` passes on from one of its public imports. -/
  | imported (file : Nat) (target : Symbol)
  deriving DecidableEq, Repr

/-- The file a symbol belongs to; for an imported one, the importing file. -/
def Symbol.file : Symbol → Nat
  | .message file _ | .enum file _ | .extension file _ | .imported file _ => file

structure FileNode where
  decl : FileDecl
  /-- Whether code is asked for. -/
  generate : Bool
  /-- All messages, each before those nested in it. -/
  messages : List MessageNode
  /-- The enums of the file, then those of each message in turn. -/
  enums : List EnumNode
  /-- The symbols that the file passes on from its public imports. -/
  imported : List Symbol := []
  importPath : String := ""
  packageName : String := ""

instance : Inhabited FileNode := ⟨⟨{}, false, [], [], [], "", ""⟩⟩

namespace FileNode

/-- The leading comment at a path: that of the last location with it. -/
def commentAt? (file : FileNode) (key : String) : Option String :=
  (file.decl.locations.filterMap fun location =>
    if SourcePath.key location.path = key then location.leading else none).getLast?

def comment? (file : FileNode) (path : SourcePath) : Option String := file.commentAt? path.key

def nestedIn (file : FileNode) (message : MessageNode) : List MessageNode :=
  file.messages.filter (·.parent == some message.path)

def enumsIn (file : FileNode) (message : MessageNode) : List EnumNode :=
  file.enums.filter (·.parent == some message.path)

end FileNode

/-- Whether one of the fields is a group of the type with this full name. -/
def declaresGroup (fields : List FieldDecl) (fullName : String) : Bool :=
  fields.any fun field => field.type == .group && field.typeName == fullName

mutual

/-- The node of a message, followed by those of the messages nested in it. -/
def messageTree (package : String) (outer : List String) (path : SourcePath)
    (parent : Option SourcePath) (siblings : List FieldDecl) : MessageDecl → List MessageNode
  | .mk name fields nested enums oneofs extensions extensionRanges reservedRanges mapEntry deprecated
      options =>
    let decl := .mk name fields nested enums oneofs extensions extensionRanges reservedRanges mapEntry
      deprecated options
    let typeName := outer ++ [name]
    let group := declaresGroup siblings (fullName package typeName)
    ⟨decl, typeName, path, parent, group⟩ :: nestedTrees package typeName path fields 0 nested

/-- The nodes of the messages from the `i`-th on that are nested in the message at `path`. -/
def nestedTrees (package : String) (outer : List String) (path : SourcePath)
    (siblings : List FieldDecl) (i : Nat) : List MessageDecl → List MessageNode
  | [] => []
  | message :: rest =>
    messageTree package outer (path.nested i) (some path) siblings message
      ++ nestedTrees package outer path siblings (i + 1) rest

end

def FileDecl.messageNodes (file : FileDecl) : List MessageNode :=
  (file.messages.mapIdx fun i message =>
    messageTree file.package [] (SourcePath.message i) none [] message).flatten

def MessageNode.enumNodes (message : MessageNode) : List EnumNode :=
  message.decl.enums.mapIdx fun i e =>
    { decl := e, typeName := message.typeName ++ [e.name], path := message.path.nestedEnum i,
      parent := some message.path }

def FileDecl.enumNodes (file : FileDecl) : List EnumNode :=
  (file.enums.mapIdx fun i e =>
    { decl := e, typeName := [e.name], path := SourcePath.enum i, parent := none })
    ++ file.messageNodes.flatMap MessageNode.enumNodes

/-- The files of a request and which of them code is asked for, in the order of the request. -/
structure Graph where
  files : List FileNode
  toGenerate : List Nat

namespace Graph

instance : Inhabited Graph := ⟨⟨[], []⟩⟩

def file? (g : Graph) (i : Nat) : Option FileNode := g.files[i]?

def fileByName? (g : Graph) (name : String) : Option Nat :=
  ((List.range g.files.length).filter fun i => (g.file? i).any (·.decl.name == name)).getLast?

def generated (g : Graph) : List FileNode := g.toGenerate.filterMap g.file?

def message? (g : Graph) (file index : Nat) : Option MessageNode :=
  (g.file? file).bind fun f => f.messages[index]?

def enum? (g : Graph) (file index : Nat) : Option EnumNode :=
  (g.file? file).bind fun f => f.enums[index]?

def extension? (g : Graph) (file index : Nat) : Option FieldDecl :=
  (g.file? file).bind fun f => f.decl.extensions[index]?

def typeName (g : Graph) : Symbol → List String
  | .message file index => ((g.message? file index).map (·.typeName)).getD []
  | .enum file index => ((g.enum? file index).map (·.typeName)).getD []
  | .extension file index => ((g.extension? file index).map fun field => [field.name]).getD []
  | .imported _ target => g.typeName target

def packageOf (g : Graph) (file : Nat) : String := ((g.file? file).map (·.decl.package)).getD ""

def importPathOf (g : Graph) (file : Nat) : String := ((g.file? file).map (·.importPath)).getD ""

def fullName (g : Graph) (s : Symbol) : String := ProtoBind.fullName (g.packageOf s.file) (g.typeName s)

def modifyFile (g : Graph) (i : Nat) (f : FileNode → FileNode) : Graph :=
  { g with files := g.files.modify i f }

def addImported (g : Graph) (file : Nat) (target : Symbol) : Graph :=
  g.modifyFile file fun node => { node with imported := node.imported ++ [target] }

end Graph

end ProtoBind
