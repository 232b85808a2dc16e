import ProtoBind.Wire.Record

/-!
# Typed messages

A message type lists the fields it knows. Decoding checks every record of a known field against the
kind of that field and keeps the values in the order of their arrival; that a later value replaces or
extends an earlier one is left to whoever asks for the field. Encoding writes each field once, by
number.
-/

set_option autoImplicit false

namespace ProtoBind.Wire

inductive Kind where
  | int32
  | int64
  | uint32
  | uint64
  | bool
  | enum
  | fixed32
  | fixed64
  | string
  | bytes
  | message (type : String)
  | group (type : String)
  deriving DecidableEq, Repr

structure Field where
  number : Nat
  kind : Kind
  repeated : Bool := false
  /-- Whether several values are written in one record. -/
  packed : Bool := false
  /-- Whether the default value counts as absent. -/
  implicit : Bool := false
  /-- The group of fields of which at most one is set. -/
  oneof : Option Nat := none
  deriving DecidableEq, Repr

abbrev Types := String → List Field

/-- A value of a field. Integers are kept as the 64 bits their shortest form has, messages beside the
bytes they were read from. -/
inductive Value where
  | integer (n : Nat)
  | fixed32 (bytes : Bytes)
  | fixed64 (bytes : Bytes)
  | string (text : String)
  | bytes (content : Bytes)
  | message (content : Bytes) (fields : List (Nat × Value))
  | unknown (payload : Payload)

/-- The values of a message with their field numbers, in the order of their arrival. -/
abbrev Fields := List (Nat × Value)

instance : Inhabited Value := ⟨.integer 0⟩

/-- The low 32 bits of an integer, extended by their sign to 64 bits. -/
def signExtend32 (n : Nat) : Nat :=
  let low := n % 0x100000000
  if low < 0x80000000 then low else low + 0xffffffff00000000

/-- An integer of a kind in its 64 bits; `none` for kinds that are no integers. -/
def Kind.integer? (kind : Kind) (n : Nat) : Option Nat :=
  match kind with
  | .int32 | .enum => some (signExtend32 n)
  | .int64 | .uint64 => some n
  | .uint32 => some (n % 0x100000000)
  | .bool => some (if n = 0 then 0 else 1)
  | _ => none

/-- The integers that fill the bytes, read one behind the other. -/
def unpackIntegers (kind : Kind) : Nat → Bytes → Option (List Value)
  | _, [] => some []
  | 0, _ => none
  | fuel + 1, bytes => do
    let (n, rest) ← decodeVarint bytes
    let value ← kind.integer? n
    let more ← unpackIntegers kind fuel rest
    return .integer value :: more

def unpackBlocks (size : Nat) : Nat → Bytes → Option (List Bytes)
  | _, [] => some []
  | 0, _ => none
  | fuel + 1, bytes => do
    let (block, rest) ← takeBytes size bytes
    let more ← unpackBlocks size fuel rest
    return block :: more

/-- The values in the payload of a field that holds no message. Fields with several numbers take them
one by one or packed. -/
def scalarValues (field : Field) (payload : Payload) : Option (List Value) :=
  match field.kind, payload with
  | .fixed32, .fixed32 content => some [.fixed32 content]
  | .fixed64, .fixed64 content => some [.fixed64 content]
  | .string, .delimited content => (ofUtf8? content).map fun text => [.string text]
  | .bytes, .delimited content => some [.bytes content]
  | .fixed32, .delimited content =>
    if field.repeated then (unpackBlocks 4 content.length content).map (·.map .fixed32) else none
  | .fixed64, .delimited content =>
    if field.repeated then (unpackBlocks 8 content.length content).map (·.map .fixed64) else none
  | kind, .varint n => (kind.integer? n).map fun n => [.integer n]
  | .message _, _ | .group _, _ => none
  | kind, .delimited content =>
    if field.repeated then unpackIntegers kind content.length content else none
  | _, _ => none

/-- The values in one record of a message of the type with the fields `known`, of which further
messages may be nested `depth` deep. `inner` decodes those; it is missing where none may follow. A
record of an unknown field may hold groups as deep as messages, where a payload that is no group counts
`leaf`. -/
def recordValues (known : List Field) (leaf depth : Nat)
    (inner : Option (String → List Record → Option Fields)) (record : Record) : Option Fields :=
  let (number, payload) := record
  match known.find? (·.number == number) with
  | none => if payload.depth leaf ≤ depth then some [(number, .unknown payload)] else none
  | some field =>
    match field.kind, payload, inner with
    | .message type, .delimited content, some decode => do
      let records ← scan content
      let fields ← decode type records
      return [(number, .message content fields)]
    | .group type, .group records, some decode => do
      let fields ← decode type records
      return [(number, .message (encodeRecords records) fields)]
    | _, _, _ => (scalarValues field payload).map (·.map fun value => (number, value))

/-- Decodes the records of a message of which further messages may be nested so deep. -/
def decodeFields (types : Types) (leaf : Nat) : Nat → String → List Record → Option Fields
  | 0, type, records => (records.mapM (recordValues (types type) leaf 0 none)).map List.flatten
  | depth + 1, type, records =>
    (records.mapM (recordValues (types type) leaf (depth + 1)
      (some (decodeFields types leaf depth)))).map List.flatten

/-- How deep messages may be nested in the outermost one. -/
def depthLimit : Nat := 100

def decodeMessage (types : Types) (leaf : Nat) (type : String) (bytes : Bytes) : Option Fields :=
  (scan bytes).bind (decodeFields types leaf depthLimit type)

namespace Fields

def values (fields : Fields) (number : Nat) : List Value :=
  (fields.filter (·.1 == number)).map Prod.snd

def strings (fields : Fields) (number : Nat) : List String :=
  (fields.values number).filterMap fun
    | .string text => some text
    | _ => none

def string? (fields : Fields) (number : Nat) : Option String := (fields.strings number).getLast?

def string (fields : Fields) (number : Nat) : String := (fields.string? number).getD ""

def messages (fields : Fields) (number : Nat) : List Fields :=
  (fields.values number).filterMap fun
    | .message _ inner => some inner
    | _ => none

/-- The bytes of the message of a field: those of all of its parts, one behind the other. -/
def content (fields : Fields) (number : Nat) : Bytes :=
  (fields.values number).flatMap fun
    | .message content _ => content
    | _ => []

/-- The message of a field: all of its parts, one behind the other. -/
def message (fields : Fields) (number : Nat) : Fields := (fields.messages number).flatten

def integers (fields : Fields) (number : Nat) : List Nat :=
  (fields.values number).filterMap fun
    | .integer n => some n
    | _ => none

def signed (n : Nat) : Int := if n < 0x8000000000000000 then n else (n : Int) - 0x10000000000000000

def ints (fields : Fields) (number : Nat) : List Int := (fields.integers number).map signed

def int? (fields : Fields) (number : Nat) : Option Int := (fields.ints number).getLast?

def int (fields : Fields) (number : Nat) : Int := (fields.int? number).getD 0

def bool? (fields : Fields) (number : Nat) : Option Bool := (fields.int? number).map (· != 0)

def bool (fields : Fields) (number : Nat) : Bool := (fields.bool? number).getD false

def byteStrings (fields : Fields) (number : Nat) : List Bytes :=
  (fields.values number).filterMap fun
    | .bytes content => some content
    | _ => none

end Fields

def bits64 (i : Int) : Nat := (i % 0x10000000000000000).toNat

def Value.packedBytes : Value → Bytes
  | .integer n => encodeVarint n
  | .fixed32 content | .fixed64 content => content
  | _ => []

def Value.isDefault : Value → Bool
  | .integer n => n == 0
  | .fixed32 content | .fixed64 content => content.all (· == 0)
  | .string text => text == ""
  | .bytes content => content == []
  | .message _ _ | .unknown _ => false

def oneofOf (known : List Field) (number : Nat) : Option Nat :=
  (known.find? (·.number == number)).bind Field.oneof

/-- Whether a later value of another field of the same oneof clears the values of `number`. -/
def isCleared (known : List Field) (number : Nat) (later : Fields) : Bool :=
  match oneofOf known number with
  | none => false
  | some group => later.any fun (other, _) => other != number && oneofOf known other == some group

def dropCleared (known : List Field) : Fields → Fields
  | [] => []
  | (number, value) :: rest =>
    if isCleared known number rest then dropCleared known rest
    else (number, value) :: dropCleared known rest

/-- The field numbers that occur, ascending. -/
def fieldNumbers (fields : Fields) : List Nat :=
  ((fields.map Prod.fst).eraseDups).mergeSort (· ≤ ·)

def encodeNested (inner : Option (String → Fields → Bytes)) (number : Nat) (kind : Kind)
    (fields : Fields) : Bytes :=
  match kind, inner with
  | .message type, some encode => encodeDelimited number (encode type fields)
  | .group type, some encode => encodeKey number 3 ++ encode type fields ++ encodeKey number 4
  | _, _ => []

def encodeValue (inner : Option (String → Fields → Bytes)) (number : Nat) (kind : Kind) :
    Value → Bytes
  | .integer n => encodeInteger number n
  | .fixed32 content => encodeKey number 5 ++ content
  | .fixed64 content => encodeKey number 1 ++ content
  | .string text => encodeDelimited number (utf8 text)
  | .bytes content => encodeDelimited number content
  | .message _ fields => encodeNested inner number kind fields
  | .unknown payload => encodeRecord number payload

/-- All values of a field: singular messages are merged, other singular fields keep the last value. -/
def encodeField (known : List Field) (inner : Option (String → Fields → Bytes)) (fields : Fields)
    (number : Nat) : Bytes :=
  let values := fields.values number
  match known.find? (·.number == number) with
  | none => values.flatMap (encodeValue inner number .bytes)
  | some field =>
    if field.repeated then
      if field.packed then encodeDelimited number (values.flatMap Value.packedBytes)
      else values.flatMap (encodeValue inner number field.kind)
    else match field.kind with
      | .message _ | .group _ => encodeNested inner number field.kind (fields.message number)
      | kind =>
        match values.getLast? with
        | none => []
        | some value =>
          if field.implicit && value.isDefault then [] else encodeValue inner number kind value

def encodeWith (known : List Field) (inner : Option (String → Fields → Bytes)) (fields : Fields) :
    Bytes :=
  let fields := dropCleared known fields
  (fieldNumbers fields).flatMap (encodeField known inner fields)

def encodeFields (types : Types) : Nat → String → Fields → Bytes
  | 0, type, fields => encodeWith (types type) none fields
  | depth + 1, type, fields => encodeWith (types type) (some (encodeFields types depth)) fields

end ProtoBind.Wire
