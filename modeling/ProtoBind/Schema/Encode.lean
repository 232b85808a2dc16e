import ProtoBind.Schema.Decl
import ProtoBind.Wire.Message

/-!
# Encoded declarations

The wire form of a request. Empty texts, zero numbers and false flags are left out.
-/

set_option autoImplicit false

namespace ProtoBind

open Wire

namespace Schema

def textField (number : Nat) (text : String) : Bytes :=
  if text = "" then [] else encodeDelimited number (utf8 text)

def numberField (number : Nat) (n : Int) : Bytes :=
  if n = 0 then [] else encodeInteger number (bits64 n)

def flagField (number : Nat) (flag : Bool) : Bytes := if flag then encodeInteger number 1 else []

def messageField (number : Nat) (content : Bytes) : Bytes :=
  if content = [] then [] else encodeDelimited number content

def messageFields (number : Nat) (contents : List Bytes) : Bytes :=
  contents.flatMap (encodeDelimited number)

end Schema

open Schema

def FieldDecl.encode (field : FieldDecl) : Bytes :=
  textField 1 field.name ++ textField 2 field.extendee ++ numberField 3 field.number
    ++ numberField 4 field.label.number ++ numberField 5 field.type.number ++ textField 6 field.typeName
    ++ messageField 8 field.options
    ++ (match field.oneofIndex with
        | some index => encodeInteger 9 (bits64 index)
        | none => [])
    ++ (match field.jsonName with
        | some name => encodeDelimited 10 (utf8 name)
        | none => [])
    ++ flagField 17 field.proto3Optional

def EnumValueDecl.encode (value : EnumValueDecl) : Bytes :=
  textField 1 value.name ++ numberField 2 value.number ++ messageField 3 value.options

def encodeRange (range : Int × Int) : Bytes := numberField 1 range.1 ++ numberField 2 range.2

def EnumDecl.encode (e : EnumDecl) : Bytes :=
  textField 1 e.name ++ messageFields 2 (e.values.map (·.encode)) ++ messageField 3 e.options
    ++ messageFields 4 (e.reservedRanges.map fun range => encodeRange (range.1, range.2 - 1))

def OneofDecl.encode (oneof : OneofDecl) : Bytes :=
  textField 1 oneof.name ++ messageField 2 oneof.options

mutual

def MessageDecl.encode : MessageDecl → Bytes
  | .mk name fields nested enums oneofs extensions extensionRanges reservedRanges _ _ options =>
    textField 1 name ++ messageFields 2 (fields.map (·.encode)) ++ encodeNestedDecls nested
      ++ messageFields 4 (enums.map (·.encode)) ++ messageFields 5 (extensionRanges.map encodeRange)
      ++ messageFields 6 (extensions.map (·.encode)) ++ messageField 7 options
      ++ messageFields 8 (oneofs.map (·.encode)) ++ messageFields 9 (reservedRanges.map encodeRange)

def encodeNestedDecls : List MessageDecl → Bytes
  | [] => []
  | message :: rest => encodeDelimited 3 message.encode ++ encodeNestedDecls rest

end

def MethodDecl.encode (method : MethodDecl) : Bytes :=
  textField 1 method.name ++ textField 2 method.inputType ++ textField 3 method.outputType
    ++ messageField 4 method.options

def ServiceDecl.encode (service : ServiceDecl) : Bytes :=
  textField 1 service.name ++ messageFields 2 (service.methods.map (·.encode))
    ++ messageField 3 service.options

def Location.encode (location : Location) : Bytes :=
  (if location.path = [] then []
    else encodeDelimited 1 (location.path.flatMap fun i => encodeVarint (bits64 i)))
    ++ (match location.leading with
        | some comment => encodeDelimited 3 (utf8 comment)
        | none => [])

def FileDecl.encode (file : FileDecl) : Bytes :=
  textField 1 file.name ++ textField 2 file.package
    ++ file.imports.flatMap (fun name => encodeDelimited 3 (utf8 name))
    ++ messageFields 4 (file.messages.map (·.encode)) ++ messageFields 5 (file.enums.map (·.encode))
    ++ messageFields 6 (file.services.map (·.encode)) ++ messageFields 7 (file.extensions.map (·.encode))
    ++ messageField 8 file.options
    ++ messageField 9 (messageFields 1 (file.locations.map (·.encode)))
    ++ file.publicImports.flatMap (fun i => encodeInteger 10 (bits64 i))
    ++ file.weakImports.flatMap (fun i => encodeInteger 11 (bits64 i))
    ++ (match file.version with
        | some version => encodeDelimited 12 (utf8 version)
        | none => [])

def FileSet.encode (contents : List Bytes) : Bytes := messageFields 1 contents

def Request.encode (request : Request) : Bytes :=
  request.filesToGenerate.flatMap (fun name => encodeDelimited 1 (utf8 name))
    ++ (match request.parameter with
        | some parameter => encodeDelimited 2 (utf8 parameter)
        | none => [])
    ++ messageFields 15 (request.files.map (·.encode))

end ProtoBind
