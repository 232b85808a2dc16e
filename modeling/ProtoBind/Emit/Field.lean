import ProtoBind.Directive
import ProtoBind.Emit.Reference
import ProtoBind.Text.Quoted

/-!
# Fields of emitted structures

The fields of a message are first given their types, in the order of the schema, and then put
together: the members of a oneof share one field, which stands where its first member stood.
-/

set_option autoImplicit false

namespace ProtoBind.Emit

open Naming Text

inductive Shape where
  | one (element : Element)
  | optional (element : Element)
  /-- An optional message, on the heap so that messages may hold themselves. -/
  | boxed (message : Reference)
  | many (element : Element)
  | map (key value : Element)
  deriving DecidableEq, Repr

namespace Shape

def text (names : LocalNames) : Shape → String
  | .one element => element.text names
  | .optional element => "Option<" ++ element.text names ++ ">"
  | .boxed message => "Option<Box<" ++ message.text names ++ ">>"
  | .many element => "Vec<" ++ element.text names ++ ">"
  | .map key value => "HashMap<" ++ key.text names ++ ", " ++ value.text names ++ ">"

def packages : Shape → List String
  | .one element | .optional element | .many element => element.packages
  | .boxed message => message.packages
  | .map key value => key.packages ++ value.packages

def isMap : Shape → Bool
  | .map _ _ => true
  | _ => false

end Shape

namespace Scope

/-- The entry message of a map field: the one a repeated field names, if it is marked as such and has
a key and a value. -/
def mapEntry? (scope : Scope) (field : FieldDecl) : Except Error (Option (FieldDecl × FieldDecl)) :=
  if field.label = .repeated ∧ field.typeName ≠ "" then
    match scope.index.get field.typeName with
    | .error e => .error e
    | .ok (.message file i) =>
      match scope.graph.message? file i with
      | none => .ok none
      | some entry =>
        if entry.decl.isMapEntry then
          match entry.decl.fields with
          | key :: value :: _ => .ok (some (key, value))
          | _ => .ok none
        else .ok none
    | .ok _ => .ok none
  else .ok none

def single (scope : Scope) (field : FieldDecl) (element : Element) : Shape :=
  match element with
  | .message message => .boxed message
  | .freeForm _ | .scalar .bytes => .one element
  | _ =>
    if !scope.file.decl.isProto3 || field.proto3Optional then .optional element else .one element

def shape (scope : Scope) (field : FieldDecl) : Except Error Shape := do
  match ← scope.mapEntry? field with
  | some (key, value) => return .map (← scope.element key) (← scope.element value)
  | none =>
    let element ← scope.element field
    if field.label = .repeated then return .many element
    else return scope.single field element

end Scope

inductive Role where
  | plain (shape : Shape)
  /-- A member of the oneof with this index. -/
  | member (oneof : Int) (element : Element)
  deriving DecidableEq, Repr

def Role.packages : Role → List String
  | .plain shape => shape.packages
  | .member _ element => element.packages

structure TypedField where
  decl : FieldDecl
  role : Role
  comment : Option String

namespace TypedField

def wireName (field : TypedField) : String := field.decl.jsonName.getD field.decl.name

end TypedField

namespace Scope

/-- The role of a field. A field that is optional by its own oneof stands alone. -/
def role (scope : Scope) (field : FieldDecl) : Except Error Role :=
  match field.oneofIndex, field.proto3Optional with
  | some oneof, false => (scope.element field).map (.member oneof)
  | _, _ => (scope.shape field).map .plain

/-- The fields of a message from the `i`-th on, with their roles. -/
def typedFields (scope : Scope) (path : SourcePath) (i : Nat) :
    List FieldDecl → Except Error (List TypedField)
  | [] => .ok []
  | field :: rest => do
    let role ← scope.role field
    let rest ← scope.typedFields path (i + 1) rest
    return { decl := field, role, comment := scope.file.comment? (path.field i) } :: rest

end Scope

/-- A field of a structure that stands for one field of the message. -/
structure PlainField where
  name : String
  shape : Shape
  wireName : String
  /-- Whether the field is left out of the serialized form while it holds its default value. -/
  omitEmpty : Bool
  comment : Option String
  deprecated : Bool

/-- A member of a oneof: a variant of its enum, and a method that returns the value. -/
structure Member where
  variant : String
  getter : String
  element : Element
  wireName : String
  comment : Option String
  deprecated : Bool

structure OneofField where
  index : Int
  name : String
  enumName : String
  comment : Option String
  members : List Member

inductive Field where
  | plain (field : PlainField)
  | oneof (field : OneofField)

namespace Field

def isOneof (index : Int) : Field → Bool
  | .plain _ => false
  | .oneof field => field.index == index

/-- The field with one more member, if it is the one of the oneof. -/
def addMember (index : Int) (member : Member) : Field → Field
  | .plain field => .plain field
  | .oneof field =>
    if field.index = index then .oneof { field with members := field.members ++ [member] }
    else .oneof field

end Field

/-- The fields put together so far, and the names that are used up. -/
structure Assembly where
  fields : List Field := []
  fieldNames : List String := []
  typeNames : List String

def oneofDecl? (message : MessageNode) (index : Int) : Option OneofDecl :=
  if 0 ≤ index then message.decl.oneofs[index.toNat]? else none

def oneofComment? (file : FileNode) (message : MessageNode) (index : Int) : Option String :=
  if 0 ≤ index then file.comment? (message.path.oneof index.toNat) else none

def Assembly.add (file : FileNode) (message : MessageNode) (state : Assembly) (field : TypedField) :
    Assembly :=
  match field.role with
  | .plain shape =>
    let name := withSuffix "_" state.fieldNames (snake field.decl.name)
    { state with
      fieldNames := name :: state.fieldNames,
      fields := state.fields ++ [.plain
        { name, shape, wireName := field.wireName,
          omitEmpty := (Directives.ofComment? field.comment).omitempty,
          comment := field.comment, deprecated := field.decl.deprecated }] }
  | .member index element =>
    let getter := withSuffix "_" state.fieldNames ("get_" ++ snake field.decl.name)
    let fieldNames := getter :: state.fieldNames
    let member : Member :=
      { variant := typeName field.decl.name, getter, element, wireName := field.wireName,
        comment := field.comment, deprecated := field.decl.deprecated }
    if state.fields.any (Field.isOneof index) then
      { state with fieldNames, fields := state.fields.map (Field.addMember index member) }
    else
      let oneofName := ((oneofDecl? message index).map OneofDecl.name).getD "oneof"
      let enumName :=
        withSuffix "Oneof" state.typeNames (typePathName message.typeName ++ pascal oneofName)
      let name := withSuffix "_" fieldNames (snake oneofName)
      { typeNames := enumName :: state.typeNames,
        fieldNames := name :: fieldNames,
        fields := state.fields ++ [.oneof
          { index, name, enumName, comment := oneofComment? file message index,
            members := [member] }] }

/-- Puts the fields of a message together, where some type names are used up before. -/
def assemble (file : FileNode) (message : MessageNode) (typeNames : List String)
    (fields : List TypedField) : Assembly :=
  fields.foldl (Assembly.add file message) { typeNames }

def renameAttribute (wireName : String) : String :=
  "#[serde(rename = " ++ Quoted.encode wireName ++ ")]"

namespace PlainField

def serdeAttribute (field : PlainField) : String :=
  if field.omitEmpty then
    "#[serde(rename = " ++ Quoted.encode field.wireName
      ++ ", skip_serializing_if = \"is_default\")]"
  else renameAttribute field.wireName

def lines (names : LocalNames) (field : PlainField) : List Line :=
  documentation field.comment field.deprecated
    ++ [code field.serdeAttribute,
      code ("pub " ++ fieldIdentifier field.name ++ ": " ++ field.shape.text names ++ ",")]

end PlainField

namespace Member

def payload (names : LocalNames) (member : Member) : String :=
  match member.element with
  | .message message => "Box<" ++ message.text names ++ ">"
  | element => element.text names

def variantLines (names : LocalNames) (member : Member) : List Line :=
  documentation member.comment member.deprecated
    ++ [code (renameAttribute member.wireName),
      code (member.variant ++ "(" ++ member.payload names ++ "),")]

/-- The method that returns the value of the member, if it is the one that is held. -/
def getterLines (names : LocalNames) (oneof : OneofField) (member : Member) : List Line :=
  block ("pub fn " ++ member.getter ++ "(&self) -> Option<&" ++ member.element.text names ++ "> \x7b")
    (block ("match &self." ++ fieldIdentifier oneof.name ++ " \x7b")
      [code ("Some(" ++ oneof.enumName ++ "::" ++ member.variant ++ "(value)) => Some(value),"),
        code "_ => None,"]
      "\x7d")
    "\x7d"

end Member

namespace OneofField

def lines (oneof : OneofField) : List Line :=
  documentation oneof.comment false
    ++ [code "#[serde(flatten)]",
      code ("pub " ++ fieldIdentifier oneof.name ++ ": Option<" ++ oneof.enumName ++ ">,")]

def enumLines (names : LocalNames) (oneof : OneofField) : List Line :=
  code "#[derive(Clone, Debug, PartialEq, Serialize, Deserialize)]"
    :: block ("pub enum " ++ oneof.enumName ++ " \x7b")
      (oneof.members.flatMap (Member.variantLines names)) "\x7d"
    ++ [.blank]

end OneofField

namespace Field

def lines (names : LocalNames) : Field → List Line
  | .plain field => field.lines names
  | .oneof field => field.lines

def enumLines (names : LocalNames) : Field → List Line
  | .plain _ => []
  | .oneof field => field.enumLines names

def getterLines (names : LocalNames) : Field → List Line
  | .plain _ => []
  | .oneof field => field.members.flatMap (Member.getterLines names field)

def hasGetters : Field → Bool
  | .plain _ => false
  | .oneof _ => true

/-- Whether the field is left out of the serialized form while it holds its default value. -/
def omitsEmpty : Field → Bool
  | .plain field => field.omitEmpty
  | .oneof _ => false

end Field

end ProtoBind.Emit
