import ProtoBind.Graph.Basic
import ProtoBind.Table

/-!
# The name index

All messages and enums of a request by their full names without the leading dot.
-/

set_option autoImplicit false

namespace ProtoBind

def dropDot (name : String) : String :=
  match name.toList with
  | '.' :: rest => String.ofList rest
  | _ => name

def FileNode.symbols (file : FileNode) (i : Nat) : List Symbol :=
  (List.range file.enums.length).map (.enum i) ++ (List.range file.messages.length).map (.message i)

def Graph.symbols (g : Graph) : List Symbol :=
  (g.files.mapIdx fun i file => file.symbols i).flatten

structure NameIndex where
  table : Table Symbol := .empty

namespace NameIndex

instance : Inhabited NameIndex := ⟨{}⟩

def add (index : NameIndex) (entry : String × Symbol) : Except Error NameIndex :=
  match index.table.get? entry.1 with
  | some _ => .error (.duplicateName entry.1)
  | none => .ok ⟨index.table.insert entry.1 entry.2⟩

def build (g : Graph) : Except Error NameIndex :=
  (g.symbols.map fun s => (dropDot (g.fullName s), s)).foldlM add {}

/-- The message or enum with a name as schemas write it, such as `.pkg.Outer.Inner`. -/
def get (index : NameIndex) (name : String) : Except Error Symbol :=
  match index.table.get? (dropDot name) with
  | some s => .ok s
  | none => .error (.objectNotFound name)

def size (index : NameIndex) : Nat := index.table.entries.length

end NameIndex

end ProtoBind
