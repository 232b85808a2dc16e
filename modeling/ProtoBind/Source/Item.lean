import ProtoBind.Source.Expr
import ProtoBind.Source.Token

/-!
# Items of source text

What a source file declares.
-/

set_option autoImplicit false

namespace ProtoBind.Source

inductive Attribute where
  | path (path : Path)
  | list (path : Path) (delimiter : Delimiter) (tokens : List Token)
  | value (path : Path) (text : String)

inductive Visibility where
  | inherited
  | everyone
  | within (path : Path)

inductive UseTree where
  | path (name : String) (tree : UseTree)
  | name (name : String)
  | rename (name other : String)
  | glob
  | group (trees : List UseTree) (ended : Bool)

structure UseItem where
  attributes : List Attribute := []
  visibility : Visibility := .inherited
  rooted : Bool := false
  tree : UseTree

structure FieldItem where
  attributes : List Attribute
  visibility : Visibility
  name : Option String
  type : Ty

inductive FieldItems where
  | named (fields : List FieldItem)
  | unnamed (fields : List FieldItem)
  | none

structure Variant where
  attributes : List Attribute
  name : String
  fields : FieldItems
  value : Option Expr

inductive Parameter where
  | lifetime (name : String) (bounds : List String)
  | type (name : String) (bounds : List Bound) (default : Option Ty)
  | const (name : String) (type : Ty)

structure Receiver where
  /-- Whether it is passed by reference, and with which lifetime. -/
  reference : Option (Option String)
  mutable : Bool
  type : Option Ty

inductive Input where
  | receiver (receiver : Receiver)
  | typed (pattern : Pat) (type : Ty)

structure Signature where
  /-- The words before `fn`. -/
  qualifiers : List String
  name : String
  parameters : List Parameter
  inputs : List Input
  output : Option Ty

structure Function where
  attributes : List Attribute
  visibility : Visibility
  signature : Signature
  body : Option (List Stmt)

structure Constant where
  attributes : List Attribute
  visibility : Visibility
  /-- The words before the name. -/
  lead : String
  name : String
  type : Ty
  value : Option Expr

structure TypeAlias where
  attributes : List Attribute
  visibility : Visibility
  name : String
  parameters : List Parameter
  bounds : List Bound
  type : Option Ty

inductive Member where
  | function (function : Function)
  | constant (constant : Constant)
  | type (definition : TypeAlias)

inductive Item where
  | use (item : UseItem)
  | struct (attributes : List Attribute) (visibility : Visibility) (name : String)
    (parameters : List Parameter) (fields : FieldItems)
  | enum (attributes : List Attribute) (visibility : Visibility) (name : String)
    (parameters : List Parameter) (variants : List Variant)
  | constant (constant : Constant)
  | type (definition : TypeAlias)
  | function (function : Function)
  | trait (attributes : List Attribute) (visibility : Visibility) (isUnsafe : Bool) (name : String)
    (parameters : List Parameter) (bounds : List Bound) (members : List Member)
  | impl (attributes : List Attribute) (isUnsafe : Bool) (parameters : List Parameter)
    (subject : Option (Bool × Path)) (target : Ty) (members : List Member)
  | module (attributes : List Attribute) (visibility : Visibility) (name : String)
    (items : Option (List Item))
  | externCrate (attributes : List Attribute) (visibility : Visibility) (name : String)
    (renamed : Option String)

structure FileOf (α ι : Type) where
  /-- The line for the system in front of everything. -/
  shebang : Option String := none
  /-- What is said of the file itself. -/
  attributes : List α := []
  items : List ι := []

abbrev SourceFile := FileOf Attribute Item

end ProtoBind.Source
