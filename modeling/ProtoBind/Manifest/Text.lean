import ProtoBind.Table
import ProtoBind.Text.JsonString

/-!
# Manifest texts

A manifest is a JSON object of strings. It is written without blanks and in the order of its keys; blanks
may stand between any two parts of what is read, and the last of several members with one key counts.
-/

set_option autoImplicit false

namespace ProtoBind.ManifestText

open Text

/-- The characters that may stand between the parts of a JSON text. -/
def isSpace (c : Char) : Bool := c == ' ' || c == '\t' || c == '\n' || c == '\r'

def skip (cs : List Char) : List Char := cs.dropWhile isSpace

def writeMember (member : String × String) : List Char :=
  JsonString.encode member.1.toList ++ ':' :: JsonString.encode member.2.toList

def writeMembers : List (String × String) → List Char
  | [] => []
  | [member] => writeMember member
  | member :: rest => writeMember member ++ ',' :: writeMembers rest

def write (table : Table String) : List Char := '\x7b' :: (writeMembers table.toList ++ ['\x7d'])

/-- Reads a key and a value, and gives what follows them and the blanks behind them. -/
def member? (cs : List Char) : Option ((String × String) × List Char) :=
  match JsonString.decode cs with
  | none => none
  | some (key, rest) =>
    match skip rest with
    | ':' :: rest =>
      match JsonString.decode (skip rest) with
      | none => none
      | some (value, rest) => some ((String.ofList key, String.ofList value), skip rest)
    | _ => none

theorem skip_length_le (cs : List Char) : (skip cs).length ≤ cs.length :=
  (List.dropWhile_sublist isSpace).length_le

theorem member?_shorter {cs rest : List Char} {member : String × String}
    (h : member? cs = some (member, rest)) : rest.length < cs.length := by
  unfold member? at h
  split at h
  · cases h
  · rename_i key more first
    have before := JsonString.decode_shorter first
    split at h
    · rename_i behind colon
      have between := skip_length_le more
      rw [colon] at between
      split at h
      · cases h
      · rename_i value last second
        obtain ⟨_, rfl⟩ := Prod.mk.inj (Option.some.inj h)
        have after := JsonString.decode_shorter second
        have blanks := skip_length_le behind
        have final := skip_length_le last
        simp only [List.length_cons] at between
        omega
    · cases h

def members? (cs : List Char) : Option (List (String × String)) :=
  match _found : member? cs with
  | some (member, ',' :: more) => (members? (skip more)).map (member :: ·)
  | some (member, '\x7d' :: more) => if skip more = [] then some [member] else none
  | _ => none
termination_by cs.length
decreasing_by
  have shorter := member?_shorter _found
  exact Nat.lt_of_le_of_lt (skip_length_le more) (Nat.lt_of_succ_lt shorter)

def read? (cs : List Char) : Option (Table String) :=
  match skip cs with
  | '\x7b' :: rest =>
    match skip rest with
    | '\x7d' :: more => if skip more = [] then some .empty else none
    | inside => (members? inside).map .ofList
  | _ => none

end ProtoBind.ManifestText
