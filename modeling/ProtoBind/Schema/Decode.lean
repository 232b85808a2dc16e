import ProtoBind.Error
import ProtoBind.Schema.Decl
import ProtoBind.Schema.Types

/-!
# Decoded declarations

Requests and files from their wire form. `Request.decode` reads all of a request;
`Request.rawFiles` takes the bytes of its files out without reading them, and `FileSet.decode` reads
such bytes once they are put together to a set of files.
-/

set_option autoImplicit false

namespace ProtoBind

open Wire

def rangeOfFields (fields : Fields) : Int × Int := (fields.int 1, fields.int 2)

/-- A range of numbers whose last is given, as its first and the one behind its last. -/
def closedRangeOfFields (fields : Fields) : Int × Int := (fields.int 1, fields.int 2 + 1)

def FieldDecl.ofFields (fields : Fields) : FieldDecl where
  name := fields.string 1
  number := fields.int 3
  label := .ofNumber (fields.int 4)
  type := .ofNumber (fields.int 5)
  typeName := fields.string 6
  extendee := fields.string 2
  oneofIndex := fields.int? 9
  jsonName := fields.string? 10
  proto3Optional := fields.bool 17
  deprecated := (fields.message 8).bool 3
  packed := (fields.message 8).bool? 2
  options := fields.content 8

def EnumValueDecl.ofFields (fields : Fields) : EnumValueDecl where
  name := fields.string 1
  number := fields.int 2
  deprecated := (fields.message 3).bool 1
  options := fields.content 3

def EnumDecl.ofFields (fields : Fields) : EnumDecl where
  name := fields.string 1
  values := (fields.messages 2).map .ofFields
  deprecated := (fields.message 3).bool 3
  allowAlias := (fields.message 3).bool 2
  reservedRanges := (fields.messages 4).map closedRangeOfFields
  options := fields.content 3

def OneofDecl.ofFields (fields : Fields) : OneofDecl where
  name := fields.string 1
  options := fields.content 2

/-- A message with further ones nested so deep; deeper ones are not declared. -/
def MessageDecl.ofFields : Nat → Fields → MessageDecl
  | depth, fields =>
    .mk (fields.string 1) ((fields.messages 2).map .ofFields)
      (match depth with
        | 0 => []
        | depth + 1 => (fields.messages 3).map (MessageDecl.ofFields depth))
      ((fields.messages 4).map .ofFields) ((fields.messages 8).map .ofFields)
      ((fields.messages 6).map .ofFields) ((fields.messages 5).map rangeOfFields)
      ((fields.messages 9).map rangeOfFields) ((fields.message 7).bool 7) ((fields.message 7).bool 3)
      (fields.content 7)

def MethodDecl.ofFields (fields : Fields) : MethodDecl where
  name := fields.string 1
  inputType := fields.string 2
  outputType := fields.string 3
  deprecated := (fields.message 4).bool 33
  options := fields.content 4

def ServiceDecl.ofFields (fields : Fields) : ServiceDecl where
  name := fields.string 1
  methods := (fields.messages 2).map .ofFields
  deprecated := (fields.message 3).bool 33
  options := fields.content 3

def Location.ofFields (fields : Fields) : Location where
  path := fields.ints 1
  leading := fields.string? 3

def FileDecl.ofFields (fields : Fields) : FileDecl where
  name := fields.string 1
  package := fields.string 2
  version := fields.string? 12
  imports := fields.strings 3
  publicImports := fields.ints 10
  weakImports := fields.ints 11
  messages := (fields.messages 4).map (.ofFields depthLimit)
  enums := (fields.messages 5).map .ofFields
  services := (fields.messages 6).map .ofFields
  extensions := (fields.messages 7).map .ofFields
  goPackage := (fields.message 8).string 11
  deprecated := (fields.message 8).bool 23
  locations := ((fields.message 9).messages 1).map .ofFields
  options := fields.content 8

def FileDecl.decode (bytes : Bytes) : Option FileDecl :=
  (decodeMessage Schema.types 1 "FileDescriptorProto" bytes).map .ofFields

namespace FileSet

def rawFiles (bytes : Bytes) : Option (List Bytes) :=
  (decodeMessage Schema.rawTypes 1 "FileDescriptorSet" bytes).map fun fields => fields.byteStrings 1

def decode (bytes : Bytes) : Option (List FileDecl) :=
  (decodeMessage Schema.types 1 "FileDescriptorSet" bytes).map fun fields =>
    (fields.messages 1).map .ofFields

end FileSet

namespace Request

def ofFields (fields : Fields) : Request where
  filesToGenerate := fields.strings 1
  parameter := fields.string? 2
  files := (fields.messages 15).map .ofFields

def decode (bytes : Bytes) : Except Error Request :=
  match decodeMessage Schema.types 1 "CodeGeneratorRequest" bytes with
  | some fields => .ok (ofFields fields)
  | none => .error .decodeRequest

/-- The bytes of the files of a request; everything else in it is passed over. -/
def rawFiles (bytes : Bytes) : Except Error (List Bytes) :=
  match decodeMessage Schema.rawTypes 1 "CodeGeneratorRequest" bytes with
  | some fields => .ok (fields.byteStrings 15)
  | none => .error .decodeRequest

def parameterOf (bytes : Bytes) : Except Error String :=
  (decode bytes).map fun request => request.parameter.getD ""

end Request

end ProtoBind
