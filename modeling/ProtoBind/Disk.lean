import ProtoBind.Manifest.Basic
import ProtoBind.Text.Blank

/-!
# Disks

Folders and files by their paths. A path is walked part by part, and every part but the last must lead
into a folder; two dots lead out of one again. A write changes one file or nothing.
-/

set_option autoImplicit false

namespace ProtoBind

open Text Wire

inductive Node where
  | folder
  | file (content : Bytes)
  deriving DecidableEq

/-- The names that lead from the working folder to a place, the last one first. -/
abbrev Place := List String

/-- The places of a disk that hold something, besides the working folder. -/
structure Disk where
  nodes : List (Place × Node) := []

namespace Disk

def empty : Disk := {}

instance : Inhabited Disk := ⟨empty⟩

def node? (disk : Disk) (place : Place) : Option Node :=
  if place = [] then some .folder else (disk.nodes.find? (·.1 == place)).map Prod.snd

def put (disk : Disk) (place : Place) (node : Node) : Disk :=
  ⟨(place, node) :: disk.nodes.filter (·.1 != place)⟩

def erase (disk : Disk) (place : Place) : Disk := ⟨disk.nodes.filter (·.1 != place)⟩

def parts (path : String) : List String := (splitOn '/' path.toList).map String.ofList

def nameLimit : Nat := 255

def pathLimit : Nat := 4095

/-- The place that the parts of a path lead to from a place. What it holds is not looked at. -/
def walk (disk : Disk) : Place → List String → Except FileFault Place
  | place, [] => .ok place
  | place, part :: rest =>
    match disk.node? place with
    | none => .error .notFound
    | some (.file _) => .error .notDirectory
    | some .folder =>
      if part = "" ∨ part = "." then walk disk place rest
      else if part = ".." then walk disk place.tail rest
      else if nameLimit < part.utf8ByteSize then .error .nameTooLong
      else walk disk (part :: place) rest

def locate (disk : Disk) (path : String) : Except FileFault Place :=
  if path.toList.contains '\x00' then .error .invalidName
  else if path = "" then .error .notFound
  else if pathLimit < path.utf8ByteSize then .error .nameTooLong
  else disk.walk [] (parts path)

def read (disk : Disk) (path : String) : Except FileFault Bytes := do
  match disk.node? (← disk.locate path) with
  | none => .error .notFound
  | some .folder => .error .isDirectory
  | some (.file content) => .ok content

/-- The disk with a content in the file at a path, which is made if it is missing. -/
def write (disk : Disk) (path : String) (content : Bytes) : Except FileFault Disk := do
  let place ← disk.locate path
  match disk.node? place with
  | some .folder => .error .isDirectory
  | _ => .ok (disk.put place (.file content))

def remove (disk : Disk) (path : String) : Except FileFault Disk := do
  let place ← disk.locate path
  match disk.node? place with
  | none => .error .notFound
  | some .folder => .error .isDirectory
  | some (.file _) => .ok (disk.erase place)

/-- Walks the parts of a path and makes every folder that is missing. Those made before a fault stay. -/
def makeAlong (disk : Disk) : Place → List String → Disk × Option FileFault
  | _, [] => (disk, none)
  | place, part :: rest =>
    if part = "" ∨ part = "." then makeAlong disk place rest
    else if part = ".." then makeAlong disk place.tail rest
    else if nameLimit < part.utf8ByteSize then (disk, some .nameTooLong)
    else match disk.node? (part :: place) with
      | some .folder => makeAlong disk (part :: place) rest
      | some (.file _) => (disk, some .notDirectory)
      | none => makeAlong (disk.put (part :: place) .folder) (part :: place) rest

def makeFolders (disk : Disk) (path : String) : Disk × Option FileFault :=
  if path.toList.contains '\x00' then (disk, some .invalidName)
  else if pathLimit < path.utf8ByteSize then (disk, some .nameTooLong)
  else disk.makeAlong [] (parts path)

def store : FileStore (StateM Disk) where
  read path := fun disk => (disk.read path, disk)
  write path content := fun disk =>
    match disk.write path content with
    | .ok changed => (none, changed)
    | .error fault => (some fault, disk)

end Disk

end ProtoBind
