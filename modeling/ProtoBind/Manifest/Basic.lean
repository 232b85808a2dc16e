import ProtoBind.Error
import ProtoBind.Manifest.Text
import ProtoBind.Text.Blank
import ProtoBind.Wire.Record

/-!
# Handler manifests

The services of a run and their directories, kept in a file beside the output. `Manifest.save` puts the
services of a run into the file, reads it first if there is one, and leaves it alone if there are none.
-/

set_option autoImplicit false

namespace ProtoBind

open Text Wire

structure FileStore (m : Type → Type) where
  /-- The content of a file. -/
  read : String → m (Except FileFault Bytes)
  /-- Gives a file its content, and answers why it could not. -/
  write : String → Bytes → m (Option FileFault)

structure Manifest where
  entries : Table String := .empty

namespace Manifest

instance : Inhabited Manifest := ⟨{}⟩

def add (manifest : Manifest) (dir service : String) : Manifest :=
  ⟨manifest.entries.insert (dir ++ "/" ++ service) dir⟩

def joinPath (dir name : String) : String :=
  if dir = "" ∨ dir.toList.getLast? = some '/' then dir ++ name else dir ++ "/" ++ name

def fileIn (dir : String) : String := joinPath dir "handler.json"

/-- Reads the text of a manifest file. A blank text is that of an empty manifest. -/
def readText (path text : String) : Except Error (Table String) :=
  if trim text.toList = [] then .ok .empty
  else match ManifestText.read? text.toList with
    | some table => .ok table
    | none => .error (.manifestContent path)

/-- Reads what a manifest file was found to hold. A missing file holds an empty manifest. -/
def readFile (path : String) : Except FileFault Bytes → Except Error (Table String)
  | .error .notFound => .ok .empty
  | .error fault => .error (.manifestAccess path fault)
  | .ok bytes =>
    match ofUtf8? bytes with
    | none => .error (.manifestAccess path .invalidText)
    | some text => readText path text

def mergeInto (manifest : Manifest) (table : Table String) : Table String :=
  table.insertAll manifest.entries.toList

def merged (manifest : Manifest) (path : String) (found : Except FileFault Bytes) :
    Except Error Bytes :=
  (readFile path found).map fun table =>
    utf8 (String.ofList (ManifestText.write (manifest.mergeInto table)))

def save {m : Type → Type} [Monad m] (manifest : Manifest) (store : FileStore m) (dir : String) :
    m (Except Error Unit) :=
  if manifest.entries.toList.isEmpty then pure (.ok ())
  else do
    let path := fileIn dir
    match manifest.merged path (← store.read path) with
    | .error e => pure (.error e)
    | .ok content =>
      match ← store.write path content with
      | some fault => pure (.error (.manifestAccess path fault))
      | none => pure (.ok ())

end Manifest

end ProtoBind
