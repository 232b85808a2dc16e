import ProtoBind.Pool.Basic
import ProtoBind.Wire.Message

/-!
# The types of a pool

The wire types of the messages that a pool defines, with the extensions of each, and the messages of
options read by these types.
-/

set_option autoImplicit false

namespace ProtoBind.Pool

open Wire

def plainKind? : FieldType → Option Kind
  | .double | .fixed64 | .sfixed64 => some .fixed64
  | .float | .fixed32 | .sfixed32 => some .fixed32
  | .int64 => some .int64
  | .uint64 | .sint64 => some .uint64
  | .int32 => some .int32
  | .uint32 | .sint32 => some .uint32
  | .bool => some .bool
  | .string => some .string
  | .bytes => some .bytes
  | .group | .message | .enum => none

/-- The wire form of a field in a scope, unless the name of its type means no such type. -/
def kind? (pool : Pool) (visible : List Nat) (scope : String) (field : FieldDecl) : Option Kind :=
  match field.type with
  | .message => (pool.resolve visible .message scope field.typeName).map .message
  | .group => (pool.resolve visible .message scope field.typeName).map .group
  | .enum => (pool.resolve visible .enum scope field.typeName).map fun _ => .enum
  | type => plainKind? type

def isPackable : Kind → Bool
  | .string | .bytes | .message _ | .group _ => false
  | _ => true

/-- The wire field of a declared field. Unless it says otherwise, a repeated field is packed from the
third version of the language on, and other fields that stand in no oneof count as absent when they
hold the default. -/
def wireField? (pool : Pool) (file : Nat) (scope : String) (field : FieldDecl) : Option Field :=
  (pool.kind? (pool.visibleFrom file) scope field).map fun kind =>
    let repeated := field.label == .repeated
    { number := field.number.toNat, kind, repeated,
      packed := repeated && isPackable kind && field.packed.getD (!pool.isProto2 file),
      implicit := !pool.isProto2 file && !repeated && field.oneofIndex.isNone && !field.proto3Optional,
      oneof := field.oneofIndex.map (·.toNat) }

def extensionsFor (pool : Pool) (name : String) : List (Scoped FieldDecl) :=
  pool.extensions.filter fun x =>
    pool.resolve (pool.visibleFrom x.file) .message x.scope x.decl.extendee == some name

def types (pool : Pool) : Types := fun name =>
  match pool.message? name with
  | none => []
  | some m =>
    m.decl.fields.filterMap (pool.wireField? m.file m.messageName)
      ++ (pool.extensionsFor name).filterMap fun x =>
        (pool.wireField? x.file x.scope x.decl).map fun field => { field with oneof := none }

/-- The options of a message type, if the pool defines this type and the bytes are of it. -/
def options? (pool : Pool) (type : String) (bytes : Bytes) : Option Fields :=
  decodeMessage pool.types 0 type bytes

/-- Whether options can be read. A pool that does not define their type leaves them as they are. -/
def optionsValid (pool : Pool) (type : String) (bytes : Bytes) : Bool :=
  bytes.isEmpty || (pool.message? type).isNone || (pool.options? type bytes).isSome

end ProtoBind.Pool
