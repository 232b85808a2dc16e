import ProtoBind.Emit.LocalNames
import ProtoBind.Graph.NameIndex

/-!
# References to types

How the types of a schema are named in an emitted file: scalars by built-in types, messages and enums
by where they are declared, four well-known types by what they hold.
-/

set_option autoImplicit false

namespace ProtoBind.Emit

open Naming

inductive Pass where
  | model
  | api
  deriving DecidableEq, Repr

/-- Where a referenced type is declared, seen from the file that refers to it. -/
inductive Home where
  /-- In that file itself. -/
  | here
  /-- In another file of its package. -/
  | sibling
  | package (importPath : String)
  deriving DecidableEq, Repr

structure Reference where
  symbol : Symbol
  home : Home
  name : String
  deriving DecidableEq, Repr

namespace Reference

def text (names : LocalNames) (r : Reference) : String :=
  match r.home with
  | .here => r.name
  | .sibling => "super::" ++ r.name
  | .package importPath => names.get importPath ++ "::" ++ r.name

/-- The import paths of the packages that have to be introduced for a reference. -/
def packages (r : Reference) : List String :=
  match r.home with
  | .package importPath => [importPath]
  | _ => []

end Reference

inductive Scalar where
  | double
  | float
  | int64
  | uint64
  | int32
  | uint32
  | bool
  | string
  | bytes
  deriving DecidableEq, Repr

def Scalar.text : Scalar → String
  | .double => "f64"
  | .float => "f32"
  | .int64 => "i64"
  | .uint64 => "u64"
  | .int32 => "i32"
  | .uint32 => "u32"
  | .bool => "bool"
  | .string => "String"
  | .bytes => "Vec<u8>"

inductive FreeForm where
  | value
  | object
  | list
  deriving DecidableEq, Repr

namespace FreeForm

def text : FreeForm → String
  | .value => "serde_json::Value"
  | .object => "serde_json::Map<String, serde_json::Value>"
  | .list => "Vec<serde_json::Value>"

def ofTypeName? (typeName : String) : Option FreeForm :=
  if typeName = ".google.protobuf.Any" ∨ typeName = ".google.protobuf.Value" then some .value
  else if typeName = ".google.protobuf.Struct" then some .object
  else if typeName = ".google.protobuf.ListValue" then some .list
  else none

end FreeForm

inductive Element where
  | scalar (type : Scalar)
  | enum (type : Reference)
  | message (type : Reference)
  | freeForm (form : FreeForm)
  deriving DecidableEq, Repr

namespace Element

def text (names : LocalNames) : Element → String
  | .scalar type => type.text
  | .enum type | .message type => type.text names
  | .freeForm form => form.text

def packages : Element → List String
  | .enum type | .message type => type.packages
  | _ => []

end Element

/-- What an emitted file can refer to: the graph, its names, and the place of the schema file. -/
structure Scope where
  graph : Graph
  index : NameIndex
  place : Nat
  pass : Pass

namespace Scope

def file (scope : Scope) : FileNode := (scope.graph.file? scope.place).getD default

/-- Where a file of the request lies as seen from this one. The types of the schema file itself stand
in its model, so its other file reaches them through the package. -/
def homeOf (scope : Scope) (place : Nat) : Home :=
  if place = scope.place ∧ scope.pass = .model then .here
  else if scope.graph.importPathOf place = scope.file.importPath then .sibling
  else .package (scope.graph.importPathOf place)

def referTo (scope : Scope) (s : Symbol) : Reference where
  symbol := s
  home := scope.homeOf s.file
  name := typePathName (scope.graph.typeName s)

/-- The reference to the message or enum that a schema calls by a name. -/
def resolve (scope : Scope) (typeName : String) : Except Error Reference :=
  match scope.index.get typeName with
  | .ok s => .ok (scope.referTo s)
  | .error e => .error e

/-- The type of one element of a field. A type of free form is known by its name alone. -/
def element (scope : Scope) (field : FieldDecl) : Except Error Element :=
  match field.type with
  | .double => .ok (.scalar .double)
  | .float => .ok (.scalar .float)
  | .int64 | .sint64 | .sfixed64 => .ok (.scalar .int64)
  | .uint64 | .fixed64 => .ok (.scalar .uint64)
  | .int32 | .sint32 | .sfixed32 => .ok (.scalar .int32)
  | .uint32 | .fixed32 => .ok (.scalar .uint32)
  | .bool => .ok (.scalar .bool)
  | .string => .ok (.scalar .string)
  | .bytes => .ok (.scalar .bytes)
  | .enum => (scope.resolve field.typeName).map .enum
  | .message | .group =>
    match FreeForm.ofTypeName? field.typeName with
    | some form => .ok (.freeForm form)
    | none => (scope.resolve field.typeName).map .message

end Scope

end ProtoBind.Emit
