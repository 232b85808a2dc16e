import ProtoBind.Graph.Basic
import ProtoBind.Table

/-!
# Arenas

The files of a request with their messages, enums and extensions in lists that all files share, where
each is known by its place. Messages enter an arena before those nested in them; what a message holds
is linked to it afterwards, and counted. `Arena.ofFiles` takes in the files of a request.
-/

set_option autoImplicit false

namespace ProtoBind

/-- A message with the places of its file, of the message around it, and of what it holds. -/
structure MessageEntry where
  decl : MessageDecl
  file : Nat
  parent : Option Nat
  nested : List Nat := []
  enums : List Nat := []
  typeName : List String
  path : SourcePath
  group : Bool

/-- An enum with the places of its file and of the message around it. -/
structure EnumEntry where
  decl : EnumDecl
  file : Nat
  parent : Option Nat
  typeName : List String
  path : SourcePath

structure ExtensionEntry where
  file : Nat
  typeName : List String

structure FileEntry where
  decl : FileDecl
  generate : Bool
  messages : List Nat
  enums : List Nat
  extensions : List Nat

inductive ArenaFault where
  | request (e : Error)
  /-- Not all messages nested in the one with this name were linked to it. -/
  | nesting (message : String)
  /-- Not all enums of the message with this name were linked to it. -/
  | enumNesting (message : String)
  deriving DecidableEq

structure Arena where
  files : List FileEntry := []
  messages : List MessageEntry := []
  enums : List EnumEntry := []
  extensions : List ExtensionEntry := []
  /-- The places of the files by their names. -/
  names : Table Nat := .empty
  toGenerate : List Nat := []

namespace MessageEntry

def outermost (file i : Nat) (decl : MessageDecl) : MessageEntry where
  decl := decl
  file := file
  parent := none
  typeName := [decl.name]
  path := SourcePath.message i
  group := false

def within (outer : MessageEntry) (package : String) (file place i : Nat) (decl : MessageDecl) :
    MessageEntry where
  decl := decl
  file := file
  parent := some place
  typeName := outer.typeName ++ [decl.name]
  path := outer.path.nested i
  group := declaresGroup outer.decl.fields (fullName package (outer.typeName ++ [decl.name]))

end MessageEntry

namespace Arena

/-! ### Messages -/

def entryOf (entries : List MessageEntry) (package : String) (file : Nat) (parent : Option Nat) (i : Nat)
    (decl : MessageDecl) : MessageEntry :=
  match parent with
  | none => .outermost file i decl
  | some place =>
    match entries[place]? with
    | none => .outermost file i decl
    | some outer => outer.within package file place i decl

mutual

/-- The entries with those of a message and of all that is nested in it, besides the places of these. -/
def addMessage (package : String) (file : Nat) (parent : Option Nat) (i : Nat)
    (entries : List MessageEntry) : MessageDecl → List MessageEntry × List Nat
  | .mk name fields nested enums oneofs extensions extensionRanges reservedRanges mapEntry deprecated
      options =>
    let entry := entryOf entries package file parent i (.mk name fields nested enums oneofs extensions
      extensionRanges reservedRanges mapEntry deprecated options)
    let added := addMessages package file (some entries.length) 0 (entries ++ [entry]) nested
    (added.1, entries.length :: added.2)

/-- The entries with those of messages that stand side by side, from the `i`-th on. -/
def addMessages (package : String) (file : Nat) (parent : Option Nat) (i : Nat)
    (entries : List MessageEntry) : List MessageDecl → List MessageEntry × List Nat
  | [] => (entries, [])
  | message :: rest =>
    let first := addMessage package file parent i entries message
    let others := addMessages package file parent (i + 1) first.1 rest
    (others.1, first.2 ++ others.2)

end

/-! ### Links -/

/-- Links a child to its parent, which `add` puts the child into. -/
def link (parentOf : Nat → Option Nat) (add : Nat → MessageEntry → MessageEntry)
    (entries : List MessageEntry) (child : Nat) : List MessageEntry :=
  match parentOf child with
  | none => entries
  | some place => entries.modify place (add child)

def linkAll (parentOf : Nat → Option Nat) (add : Nat → MessageEntry → MessageEntry)
    (entries : List MessageEntry) (children : List Nat) : List MessageEntry :=
  children.foldl (link parentOf add) entries

/-- The name of the first message at one of the places to which less or more is linked than it
declares. -/
def lacking? (linked declared : MessageEntry → Nat) (entries : List MessageEntry) (places : List Nat) :
    Option String :=
  (places.filterMap (entries[·]?)).findSome? fun entry =>
    if linked entry = declared entry then none else some entry.decl.name

def parentAt (entries : List MessageEntry) (place : Nat) : Option Nat := entries[place]?.bind (·.parent)

def linkMessages (entries : List MessageEntry) (places : List Nat) : List MessageEntry :=
  linkAll (parentAt entries) (fun child entry => { entry with nested := entry.nested ++ [child] })
    entries places

/-! ### Enums -/

/-- The entries of the enums of a file that stand in no message. -/
def outermostEnums (file : Nat) (decls : List EnumDecl) : List EnumEntry :=
  decls.mapIdx fun i decl =>
    { decl, file, parent := none, typeName := [decl.name], path := SourcePath.enum i }

/-- The entries of the enums that a message declares, which stands at a place. -/
def enumBlock (file place : Nat) (outer : MessageEntry) : List EnumEntry :=
  outer.decl.enums.mapIdx fun i decl =>
    { decl, file, parent := some place, typeName := outer.typeName ++ [decl.name],
      path := outer.path.nestedEnum i }

def enumsWithin (entries : List MessageEntry) (file place : Nat) : List EnumEntry :=
  match entries[place]? with
  | none => []
  | some outer => enumBlock file place outer

def enumParentAt (enums : List EnumEntry) (place : Nat) : Option Nat := enums[place]?.bind (·.parent)

def linkEnums (enums : List EnumEntry) (entries : List MessageEntry) (places : List Nat) :
    List MessageEntry :=
  linkAll (enumParentAt enums) (fun child entry => { entry with enums := entry.enums ++ [child] })
    entries places

/-! ### Files -/

def addFile (generate : List String) (arena : Arena) (file : FileDecl) : Except ArenaFault Arena :=
  let place := arena.files.length
  let (added, places) := addMessages file.package place none 0 arena.messages file.messages
  let nested := linkMessages added places
  match lacking? (·.nested.length) (·.decl.nested.length) nested places with
  | some name => .error (.nesting name)
  | none =>
    let newEnums := outermostEnums place file.enums ++ places.flatMap (enumsWithin nested place)
    let enums := arena.enums ++ newEnums
    let enumPlaces := List.range' arena.enums.length newEnums.length
    let messages := linkEnums enums nested enumPlaces
    match lacking? (·.enums.length) (·.decl.enums.length) messages places with
    | some name => .error (.enumNesting name)
    | none => .ok
      { arena with
        files := arena.files ++ [
          { decl := file, generate := generate.contains file.name, messages := places,
            enums := enumPlaces,
            extensions := List.range' arena.extensions.length file.extensions.length }]
        messages
        enums
        extensions := arena.extensions ++ file.extensions.map fun field => ⟨place, [field.name]⟩
        names := arena.names.insert file.name place }

def placeOf (arena : Arena) (name : String) : Except ArenaFault Nat :=
  match arena.names.get? name with
  | some place => .ok place
  | none => .error (.request (.fileNotFound name))

/-- The arena of a list of files, of which those named in `generate` are to be generated. -/
def ofFiles (files : List FileDecl) (generate : List String) : Except ArenaFault Arena :=
  if generate.isEmpty then .error (.request .noFilesToGenerate)
  else do
    let arena ← files.foldlM (addFile generate) {}
    let toGenerate ← generate.mapM arena.placeOf
    return { arena with toGenerate }

/-! ### Graphs -/

def pathAt (entries : List MessageEntry) (place : Nat) : Option SourcePath := entries[place]?.map (·.path)

def messageNode (entries : List MessageEntry) (entry : MessageEntry) : MessageNode where
  decl := entry.decl
  typeName := entry.typeName
  path := entry.path
  parent := entry.parent.bind (pathAt entries)
  group := entry.group

def enumNode (entries : List MessageEntry) (entry : EnumEntry) : EnumNode where
  decl := entry.decl
  typeName := entry.typeName
  path := entry.path
  parent := entry.parent.bind (pathAt entries)

def fileNode (arena : Arena) (file : FileEntry) : FileNode where
  decl := file.decl
  generate := file.generate
  messages := file.messages.filterMap fun place =>
    arena.messages[place]?.map (messageNode arena.messages)
  enums := file.enums.filterMap fun place => arena.enums[place]?.map (enumNode arena.messages)

/-- The files of an arena, each with its own messages and enums. -/
def graph (arena : Arena) : Graph where
  files := arena.files.map arena.fileNode
  toGenerate := arena.toGenerate

end Arena

end ProtoBind
