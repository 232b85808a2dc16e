import ProtoBind.Source.Ty

/-!
# Patterns of source text
-/

set_option autoImplicit false

namespace ProtoBind.Source

inductive Pat where
  | wild
  /-- Any number of elements. -/
  | dots
  | bind (byRef mutable : Bool) (name : String) (inner : Option Pat)
  | literal (text : String)
  | range (lower upper : String) (closed : Bool)
  | path (path : Path)
  | tupleStruct (path : Path) (elements : List Pat)
  /-- The fields of a structure, those written by their names alone without a pattern. -/
  | struct (path : Path) (fields : List (String × Option Pat)) (more : Bool)
  | tuple (elements : List Pat)
  | slice (elements : List Pat)
  | reference (mutable : Bool) (target : Pat)
  | either (cases : List Pat)
  | paren (inner : Pat)
  | typed (inner : Pat) (type : Ty)

instance : Inhabited Pat := ⟨.wild⟩

end ProtoBind.Source
