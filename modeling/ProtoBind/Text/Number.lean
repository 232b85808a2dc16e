/-!
# Decimal integers of 64 bits

A sign is allowed, blanks and separators are not. Reading stops at the first character that is no
digit or carries the value out of range, and says which of the two it was.
-/

set_option autoImplicit false

namespace ProtoBind.Text

inductive IntegerFault where
  | empty
  | invalidDigit
  | tooLarge
  | tooSmall
  deriving DecidableEq, Repr

def IntegerFault.message : IntegerFault → String
  | .empty => "cannot parse integer from empty string"
  | .invalidDigit => "invalid digit found in string"
  | .tooLarge => "number too large to fit in target type"
  | .tooSmall => "number too small to fit in target type"

/-- Reads further digits behind a value with magnitude `value`, which may not pass `limit`. -/
def readDigits (limit : Nat) (fault : IntegerFault) : Nat → List Char → Except IntegerFault Nat
  | value, [] => .ok value
  | value, c :: cs =>
    if c.isDigit then
      let next := 10 * value + (c.toNat - 48)
      if next ≤ limit then readDigits limit fault next cs else .error fault
    else .error .invalidDigit

/-- The integer that a text writes, between `-2^63` and `2^63 - 1`. -/
def readInt64 (cs : List Char) : Except IntegerFault Int :=
  match cs with
  | [] => .error .empty
  | ['+'] | ['-'] => .error .invalidDigit
  | '-' :: digits => (readDigits 0x8000000000000000 .tooSmall 0 digits).map fun n => -(n : Int)
  | '+' :: digits => (readDigits 0x7fffffffffffffff .tooLarge 0 digits).map Int.ofNat
  | digits => (readDigits 0x7fffffffffffffff .tooLarge 0 digits).map Int.ofNat

end ProtoBind.Text
