import ProtoBind.Wire.Varint

/-!
# Records

A message is a sequence of records, each a field number and a payload whose form its key tells.
`scan` reads the records of a message without knowing its type; groups are records within a record.
-/

set_option autoImplicit false

namespace ProtoBind.Wire

inductive Payload where
  | varint (n : Nat)
  | fixed64 (bytes : Bytes)
  | delimited (bytes : Bytes)
  | group (records : List (Nat × Payload))
  | fixed32 (bytes : Bytes)

abbrev Record := Nat × Payload

instance : Inhabited Payload := ⟨.varint 0⟩

mutual

/-- How deep groups are nested, where a payload that is no group counts `leaf`. -/
def Payload.depth (leaf : Nat) : Payload → Nat
  | .group records => 1 + recordsDepth leaf records
  | _ => leaf

def recordsDepth (leaf : Nat) : List (Nat × Payload) → Nat
  | [] => 0
  | (_, p) :: rest => max (p.depth leaf) (recordsDepth leaf rest)

end

def takeBytes (n : Nat) (bytes : Bytes) : Option (Bytes × Bytes) :=
  if n ≤ bytes.length then some (bytes.take n, bytes.drop n) else none

/-- Reads records up to the end of the bytes, or up to the end of the group `inside`. -/
def scanRecords : Nat → Option Nat → Bytes → Option (List Record × Bytes)
  | 0, _, _ => none
  | _ + 1, none, [] => some ([], [])
  | _ + 1, some _, [] => none
  | fuel + 1, inside, bytes => do
    let (key, rest) ← decodeVarint bytes
    let number := key / 8
    if 0x100000000 ≤ key ∨ number = 0 then none
    else match key % 8 with
      | 0 =>
        let (n, rest) ← decodeVarint rest
        let (more, rest) ← scanRecords fuel inside rest
        return ((number, .varint n) :: more, rest)
      | 1 =>
        let (content, rest) ← takeBytes 8 rest
        let (more, rest) ← scanRecords fuel inside rest
        return ((number, .fixed64 content) :: more, rest)
      | 2 =>
        let (size, rest) ← decodeVarint rest
        let (content, rest) ← takeBytes size rest
        let (more, rest) ← scanRecords fuel inside rest
        return ((number, .delimited content) :: more, rest)
      | 3 =>
        let (records, rest) ← scanRecords fuel (some number) rest
        let (more, rest) ← scanRecords fuel inside rest
        return ((number, .group records) :: more, rest)
      | 4 => if inside = some number then some ([], rest) else none
      | 5 =>
        let (content, rest) ← takeBytes 4 rest
        let (more, rest) ← scanRecords fuel inside rest
        return ((number, .fixed32 content) :: more, rest)
      | _ => none

/-- The records of a message. Every record takes a byte at least, so one step more than there are
bytes is enough. -/
def scan (bytes : Bytes) : Option (List Record) :=
  (scanRecords (bytes.length + 1) none bytes).map Prod.fst

/-- The key of a record: its field number and the form of its payload. -/
def encodeKey (number form : Nat) : Bytes := encodeVarint (8 * number + form)

def encodeDelimited (number : Nat) (content : Bytes) : Bytes :=
  encodeKey number 2 ++ encodeVarint content.length ++ content

def encodeInteger (number n : Nat) : Bytes := encodeKey number 0 ++ encodeVarint n

mutual

def encodeRecord (number : Nat) : Payload → Bytes
  | .varint n => encodeInteger number n
  | .fixed64 content => encodeKey number 1 ++ content
  | .delimited content => encodeDelimited number content
  | .group records => encodeKey number 3 ++ encodeRecords records ++ encodeKey number 4
  | .fixed32 content => encodeKey number 5 ++ content

def encodeRecords : List (Nat × Payload) → Bytes
  | [] => []
  | (number, payload) :: rest => encodeRecord number payload ++ encodeRecords rest

end

def utf8 (s : String) : Bytes := s.toUTF8.data.toList

def ofUtf8? (bytes : Bytes) : Option String := String.fromUTF8? ⟨bytes.toArray⟩

end ProtoBind.Wire
