import ProtoBind.Wire.Message

/-!
# Message types of the request

The fields of a request and of the declarations in it, by their numbers.
-/

set_option autoImplicit false

namespace ProtoBind.Schema

open Wire

def one (number : Nat) (kind : Kind) : Field := { number, kind }

def many (number : Nat) (kind : Kind) : Field := { number, kind, repeated := true }

def uninterpreted : Field := many 999 (.message "UninterpretedOption")

def types : Types
  | "CodeGeneratorRequest" =>
    [many 1 .string, one 2 .string, many 15 (.message "FileDescriptorProto"), one 3 (.message "Version")]
  | "Version" => [one 1 .int32, one 2 .int32, one 3 .int32, one 4 .string]
  | "FileDescriptorProto" =>
    [one 1 .string, one 2 .string, many 3 .string, many 10 .int32, many 11 .int32,
      many 4 (.message "DescriptorProto"), many 5 (.message "EnumDescriptorProto"),
      many 6 (.message "ServiceDescriptorProto"), many 7 (.message "FieldDescriptorProto"),
      one 8 (.message "FileOptions"), one 9 (.message "SourceCodeInfo"), one 12 .string]
  | "DescriptorProto" =>
    [one 1 .string, many 2 (.message "FieldDescriptorProto"), many 6 (.message "FieldDescriptorProto"),
      many 3 (.message "DescriptorProto"), many 4 (.message "EnumDescriptorProto"),
      many 5 (.message "ExtensionRange"), many 8 (.message "OneofDescriptorProto"),
      one 7 (.message "MessageOptions"), many 9 (.message "ReservedRange"), many 10 .string]
  | "ExtensionRange" => [one 1 .int32, one 2 .int32, one 3 (.message "ExtensionRangeOptions")]
  | "ReservedRange" => [one 1 .int32, one 2 .int32]
  | "FieldDescriptorProto" =>
    [one 1 .string, one 3 .int32, one 4 .enum, one 5 .enum, one 6 .string, one 2 .string, one 7 .string,
      one 9 .int32, one 10 .string, one 8 (.message "FieldOptions"), one 17 .bool]
  | "OneofDescriptorProto" => [one 1 .string, one 2 (.message "OneofOptions")]
  | "EnumDescriptorProto" =>
    [one 1 .string, many 2 (.message "EnumValueDescriptorProto"), one 3 (.message "EnumOptions"),
      many 4 (.message "ReservedRange"), many 5 .string]
  | "EnumValueDescriptorProto" => [one 1 .string, one 2 .int32, one 3 (.message "EnumValueOptions")]
  | "ServiceDescriptorProto" =>
    [one 1 .string, many 2 (.message "MethodDescriptorProto"), one 3 (.message "ServiceOptions")]
  | "MethodDescriptorProto" =>
    [one 1 .string, one 2 .string, one 3 .string, one 4 (.message "MethodOptions"), one 5 .bool,
      one 6 .bool]
  | "FileOptions" =>
    [one 1 .string, one 8 .string, one 10 .bool, one 20 .bool, one 27 .bool, one 9 .enum, one 11 .string,
      one 16 .bool, one 17 .bool, one 18 .bool, one 42 .bool, one 23 .bool, one 31 .bool, one 36 .string,
      one 37 .string, one 39 .string, one 40 .string, one 41 .string, one 44 .string, one 45 .string,
      uninterpreted]
  | "MessageOptions" => [one 1 .bool, one 2 .bool, one 3 .bool, one 7 .bool, uninterpreted]
  | "FieldOptions" =>
    [one 1 .enum, one 2 .bool, one 6 .enum, one 5 .bool, one 3 .bool, one 10 .bool, uninterpreted]
  | "OneofOptions" => [uninterpreted]
  | "EnumOptions" => [one 2 .bool, one 3 .bool, uninterpreted]
  | "EnumValueOptions" => [one 1 .bool, uninterpreted]
  | "ServiceOptions" => [one 33 .bool, uninterpreted]
  | "MethodOptions" => [one 33 .bool, one 34 .enum, uninterpreted]
  | "ExtensionRangeOptions" => [uninterpreted]
  | "UninterpretedOption" =>
    [many 2 (.message "NamePart"), one 3 .string, one 4 .uint64, one 5 .int64, one 6 .fixed64,
      one 7 .bytes, one 8 .string]
  | "NamePart" => [one 1 .string, one 2 .bool]
  | "SourceCodeInfo" => [many 1 (.message "Location")]
  | "Location" => [many 1 .int32, many 2 .int32, one 3 .string, one 4 .string, many 6 .string]
  | "FileDescriptorSet" => [many 1 (.message "FileDescriptorProto")]
  | _ => []

/-- The one field of a request, or of a set of files, that holds the files, undecoded. -/
def rawTypes : Types
  | "CodeGeneratorRequest" => [many 15 .bytes]
  | "FileDescriptorSet" => [many 1 .bytes]
  | _ => []

end ProtoBind.Schema
