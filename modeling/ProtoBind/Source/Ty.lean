/-!
# Types and paths of source text
-/

set_option autoImplicit false

namespace ProtoBind.Source

mutual

inductive Ty where
  | path (path : Path)
  | reference (lifetime : Option String) (mutable : Bool) (target : Ty)
  | pointer (mutable : Bool) (target : Ty)
  | tuple (elements : List Ty)
  | slice (element : Ty)
  | array (element : Ty) (length : String)
  /-- Some type with these bounds. -/
  | impl (bounds : List Bound)
  /-- Any type with these bounds, known at run time only. -/
  | dyn (bounds : List Bound)
  | paren (inner : Ty)
  | never
  | inferred

inductive Path where
  | mk (rooted : Bool) (segments : List Segment)

inductive Segment where
  | mk (name : String) (arguments : Arguments)

inductive Arguments where
  | none
  | angled (elements : List Argument)
  | called (inputs : List Ty) (output : Option Ty)

inductive Argument where
  | lifetime (name : String)
  | type (type : Ty)
  | literal (text : String)
  | equality (name : String) (type : Ty)

inductive Bound where
  | lifetime (name : String)
  | trait (maybe : Bool) (path : Path)

end

instance : Inhabited Ty := ⟨.never⟩

instance : Inhabited Path := ⟨.mk false []⟩

def Path.ident? : Path → Option String
  | .mk false [.mk name .none] => some name
  | _ => none

def Path.ofName (name : String) : Path := .mk false [.mk name .none]

end ProtoBind.Source
