import ProtoBind.Emit.Field
import ProtoBind.Emit.Header
import ProtoBind.Graph.PublicImports

/-!
# Model files

The types of a schema file: a structure for each message, a number with named constants for each enum,
and aliases for what the file passes on from other packages. `ModelFile.ofScope` finds what is
declared, `ModelFile.lines` writes it down.
-/

set_option autoImplicit false

namespace ProtoBind.Emit

open Naming Text

structure Struct where
  name : String
  comment : Option String
  deprecated : Bool
  /-- Whether a group field declares the message. -/
  group : Bool
  fields : List Field

structure TypedMessage where
  node : MessageNode
  fields : List TypedField

/-- Names that another package declares, in the order in which they are passed on. -/
structure Alias where
  importPath : String
  names : List String

/-- What the model of a schema file declares, the schema file, and the local names that all of it
needs. -/
structure ModelFile where
  file : FileNode
  names : LocalNames
  aliases : List Alias
  enums : List EnumNode
  structs : List Struct

namespace Scope

/-- The aliases for the symbols that a file passes on from other packages. -/
def aliases (scope : Scope) : List Alias :=
  scope.file.imported.filterMap fun s =>
    let importPath := scope.graph.importPathOf s.file
    let names := scope.graph.exportedNames s
    if importPath = scope.file.importPath ∨ names = [] then none else some ⟨importPath, names⟩

def declaredMessages (scope : Scope) : List MessageNode :=
  scope.file.messages.filter fun message => !message.decl.isMapEntry

def typedMessage (scope : Scope) (message : MessageNode) : Except Error TypedMessage :=
  match scope.typedFields message.path 0 message.decl.fields with
  | .ok fields => .ok ⟨message, fields⟩
  | .error e => .error e

def typedMessages (scope : Scope) : Except Error (List TypedMessage) :=
  scope.declaredMessages.mapM scope.typedMessage

/-- The type names that the messages and enums of a file use up. -/
def declaredNames (scope : Scope) : List String :=
  scope.file.messages.map (fun message => typePathName message.typeName)
    ++ scope.file.enums.map fun e => typePathName e.typeName

/-- The structures for a list of messages, where some type names are used up before. -/
def structs (file : FileNode) (typeNames : List String) : List TypedMessage → List Struct
  | [] => []
  | message :: rest =>
    let assembly := assemble file message.node typeNames message.fields
    { name := typePathName message.node.typeName, comment := file.comment? message.node.path,
      deprecated := message.node.decl.isDeprecated, group := message.node.group,
      fields := assembly.fields } :: structs file assembly.typeNames rest

end Scope

namespace ModelFile

def packages (aliases : List Alias) (messages : List TypedMessage) : List String :=
  aliases.map (·.importPath)
    ++ messages.flatMap fun message => message.fields.flatMap fun field => field.role.packages

def ofScope (scope : Scope) : Except Error ModelFile :=
  match scope.typedMessages with
  | .error e => .error e
  | .ok messages => .ok
    { file := scope.file, names := .ofPaths (packages scope.aliases messages),
      aliases := scope.aliases, enums := scope.file.enums,
      structs := Scope.structs scope.file scope.declaredNames messages }

def usesSerialization (model : ModelFile) : Bool := !model.enums.isEmpty || !model.structs.isEmpty

def fields (model : ModelFile) : List Field := model.structs.flatMap (·.fields)

def usesMaps (model : ModelFile) : Bool :=
  model.fields.any fun
    | .plain field => field.shape.isMap
    | .oneof _ => false

/-- Whether a field is left out of the serialized form while it holds its default value. -/
def usesDefaultTest (model : ModelFile) : Bool := model.fields.any Field.omitsEmpty

def uses (params : Parameters) (model : ModelFile) : List Line :=
  (if model.usesSerialization then [code "use serde::\x7bDeserialize, Serialize\x7d;"] else [])
    ++ (if model.usesMaps then [code "use std::collections::HashMap;"] else [])
    ++ params.packageUses model.names

def aliasLines (model : ModelFile) : List Line :=
  let items := model.aliases.flatMap fun a =>
    a.names.map fun name => code ("pub use " ++ model.names.get a.importPath ++ "::" ++ name ++ ";")
  if items.isEmpty then [] else items ++ [.blank]

end ModelFile

/-- The values of an enum that name a number first, in the order of the numbers. -/
def insertFirst (value : EnumValueDecl) : List EnumValueDecl → List EnumValueDecl
  | [] => [value]
  | v :: rest =>
    if value.number < v.number then value :: v :: rest
    else if value.number = v.number then v :: rest
    else v :: insertFirst value rest

/-- One value for each number, the first that is declared, in the order of the numbers. -/
def namedValues (values : List EnumValueDecl) : List EnumValueDecl :=
  values.foldl (fun named value => insertFirst value named) []

namespace EnumLines

def constant (file : FileNode) (e : EnumNode) (name : String) (i : Nat) (value : EnumValueDecl)
    (constantName : String) : List Line :=
  documentation (file.comment? (e.path.value i)) value.deprecated
    ++ [code ("pub const " ++ constantName ++ ": " ++ name ++ " = " ++ name ++ "("
      ++ toString value.number ++ ");")]

def constants (file : FileNode) (e : EnumNode) (name : String) (i : Nat) :
    List (EnumValueDecl × String) → List Line
  | [] => []
  | (value, constantName) :: rest =>
    constant file e name i value constantName ++ constants file e name (i + 1) rest

def arm (value : EnumValueDecl) : Line :=
  code (toString value.number ++ " => Some(" ++ Quoted.encode value.name ++ "),")

def nameMethod (values : List EnumValueDecl) : List Line :=
  .doc 0 "The name of the value as declared in the schema, if it is known."
    :: block "pub fn name(self) -> Option<&'static str> \x7b"
      (block "match self.0 \x7b" ((namedValues values).map arm ++ [code "_ => None,"]) "\x7d")
      "\x7d"

end EnumLines

def enumLines (file : FileNode) (e : EnumNode) : List Line :=
  let name := typePathName e.typeName
  documentation (file.comment? e.path) e.decl.deprecated
    ++ [code ("#[derive(Clone, Copy, Debug, Default, PartialEq, Eq, Hash, PartialOrd, Ord, "
        ++ "Serialize, Deserialize)]"),
      code "#[serde(transparent)]",
      code ("pub struct " ++ name ++ "(pub i32);"),
      .blank]
    ++ EnumLines.constants file e name 0 (e.decl.values.zip e.constants)
    ++ [.blank]
    ++ block ("impl " ++ name ++ " \x7b") (EnumLines.nameMethod e.decl.values) "\x7d"
    ++ [.blank]

namespace Struct

/-- What is said of a message that a group field declares. -/
def groupNote : String := "Encoded as a proto2 group."

def declaration (names : LocalNames) (s : Struct) : List Line :=
  if s.fields.isEmpty then [code ("pub struct " ++ s.name ++ " \x7b\x7d")]
  else block ("pub struct " ++ s.name ++ " \x7b") (s.fields.flatMap (Field.lines names)) "\x7d"

def methods (names : LocalNames) (s : Struct) : List Line :=
  if s.fields.any Field.hasGetters then
    block ("impl " ++ s.name ++ " \x7b") (s.fields.flatMap (Field.getterLines names)) "\x7d"
      ++ [.blank]
  else []

def lines (names : LocalNames) (s : Struct) : List Line :=
  documentation s.comment s.deprecated
    ++ (if s.group then [.doc 0 groupNote] else [])
    ++ [code "#[derive(Clone, Debug, Default, PartialEq, Serialize, Deserialize)]",
      code "#[serde(default)]"]
    ++ s.declaration names
    ++ [.blank]
    ++ s.fields.flatMap (Field.enumLines names)
    ++ s.methods names

end Struct

namespace ModelFile

def defaultTest : List Line :=
  block "fn is_default<T: Default + PartialEq>(value: &T) -> bool \x7b"
    [code "*value == T::default()"] "\x7d"

def body (model : ModelFile) : List Line :=
  model.aliasLines
    ++ model.enums.flatMap (enumLines model.file)
    ++ model.structs.flatMap (Struct.lines model.names)
    ++ (if model.usesDefaultTest then defaultTest else [])

def lines (params : Parameters) (model : ModelFile) : List Line :=
  header model.file ++ model.uses params ++ [.blank] ++ model.body

end ModelFile

end ProtoBind.Emit
