import ProtoBind.Text.Escaped

/-!
# Quoted text

`Quoted.encode` writes a text between double quotes; `Quoted.read` reads what such a literal denotes,
with all escapes the target language knows.
-/

set_option autoImplicit false

namespace ProtoBind.Text.Quoted

def hexDigits (n : Nat) : List Char := Nat.toDigits 16 n

/-- The written form of one character: five characters have escapes of their own, others a number. -/
def encodeChar (c : Char) : List Char :=
  if c = '\x00' then ['\x5c', '0']
  else if c = '\t' then ['\x5c', 't']
  else if c = '\r' then ['\x5c', 'r']
  else if c = '\n' then ['\x5c', 'n']
  else if c = '\x5c' then ['\x5c', '\x5c']
  else if c = '\x22' then ['\x5c', '\x22']
  else if isEscaped c then ['\x5c', 'u', '\x7b'] ++ hexDigits c.toNat ++ ['\x7d']
  else [c]

def encodeBody (cs : List Char) : List Char := cs.flatMap encodeChar

def encode (s : String) : String :=
  String.ofList ('\x22' :: (encodeBody s.toList ++ ['\x22']))

inductive Mode where
  /-- Between two characters. -/
  | plain
  /-- Behind a carriage return, which only a newline may follow. -/
  | carriage
  /-- Behind a backslash. -/
  | slash
  /-- Before the first digit of a two-digit number. -/
  | byteHigh
  /-- Before the second digit of a two-digit number. -/
  | byteLow (high : Nat)
  /-- Before the brace that opens a number. -/
  | openBrace
  /-- Inside a braced number of so many digits and this value. -/
  | number (digits value : Nat)
  /-- Among the blanks behind a line that ends in a backslash. -/
  | gap
  /-- Among such blanks, behind a carriage return. -/
  | gapCarriage
  deriving DecidableEq, Repr

def hexValue (c : Char) : Option Nat :=
  if c.isDigit then some (c.toNat - 48)
  else if 'a' ≤ c ∧ c ≤ 'f' then some (c.toNat - 87)
  else if 'A' ≤ c ∧ c ≤ 'F' then some (c.toNat - 55)
  else none

def shortEscape (c : Char) : Option Char :=
  if c = 'n' then some '\n'
  else if c = 'r' then some '\r'
  else if c = 't' then some '\t'
  else if c = '0' then some '\x00'
  else if c = '\x5c' ∨ c = '\x22' ∨ c = '\x27' then some c
  else none

def plainStep (c : Char) : Mode × List Char :=
  if c = '\x5c' then (.slash, [])
  else if c = '\r' then (.carriage, [])
  else (.plain, [c])

/-- One step of the reader: the place behind `c` and the characters denoted so far by it. -/
def step (mode : Mode) (c : Char) : Option (Mode × List Char) :=
  match mode with
  | .plain => some (plainStep c)
  | .carriage => if c = '\n' then some (.plain, ['\n']) else none
  | .slash =>
    if c = 'x' then some (.byteHigh, [])
    else if c = 'u' then some (.openBrace, [])
    else if c = '\n' then some (.gap, [])
    else if c = '\r' then some (.gapCarriage, [])
    else (shortEscape c).map fun d => (.plain, [d])
  | .byteHigh =>
    match hexValue c with
    | some h => if h < 8 then some (.byteLow h, []) else none
    | none => none
  | .byteLow h => (hexValue c).map fun l => (.plain, [Char.ofNat (16 * h + l)])
  | .openBrace => if c = '\x7b' then some (.number 0 0, []) else none
  | .number digits value =>
    if c = '\x7d' then
      if 0 < digits ∧ value.isValidChar then some (.plain, [Char.ofNat value]) else none
    else if c = '_' then
      if 0 < digits then some (.number digits value, []) else none
    else match hexValue c with
      | some h => if digits < 6 then some (.number (digits + 1) (16 * value + h), []) else none
      | none => none
  | .gap =>
    if c = ' ' ∨ c = '\t' ∨ c = '\n' then some (.gap, [])
    else if c = '\r' then some (.gapCarriage, [])
    else some (plainStep c)
  | .gapCarriage => if c = '\n' then some (.gap, []) else none

/-- What the literal denotes up to its closing quote, and what follows that quote. -/
def read : Mode → List Char → Option (List Char × List Char)
  | _, [] => none
  | mode, c :: cs =>
    if c = '\x22' ∧ (mode = .plain ∨ mode = .gap) then some ([], cs)
    else match step mode c with
      | none => none
      | some (next, out) => (read next cs).map fun (value, rest) => (out ++ value, rest)

theorem read_plain_quote (cs : List Char) : read .plain ('\x22' :: cs) = some ([], cs) := by
  simp [read]

end ProtoBind.Text.Quoted
