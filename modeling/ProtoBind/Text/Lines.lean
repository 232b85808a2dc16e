import ProtoBind.Text.Blank

/-!
# Texts as lines

The lines of a schema comment, and the numbered listing of a source text.
-/

set_option autoImplicit false

namespace ProtoBind.Text

def dropFinalNewline (cs : List Char) : List Char :=
  match cs.reverse with
  | '\n' :: front => front.reverse
  | _ => cs

/-- The lines of a comment. Each is trimmed, so that none reads as an indented code block. -/
def commentLines (comment : String) : List String :=
  (splitOn '\n' (dropFinalNewline comment.toList)).map fun line => String.ofList (trim line)

def dropCarriage (line : List Char) : List Char :=
  match line.reverse with
  | '\r' :: front => front.reverse
  | _ => line

/-- The lines of a text; a last piece without a newline counts only if it is not empty. -/
def sourceLines (cs : List Char) : List (List Char) :=
  let pieces := splitOn '\n' cs
  let ended := pieces.dropLast.map dropCarriage
  match pieces.getLast? with
  | none | some [] => ended
  | some last => ended ++ [last]

def lineNumber (n : Nat) : String :=
  let digits := toString n
  "".pushn ' ' (5 - digits.length) ++ digits

def numberedListing (source : String) : String :=
  String.join ((sourceLines source.toList).mapIdx fun i line =>
    lineNumber (i + 1) ++ "\t" ++ String.ofList line ++ "\n")

end ProtoBind.Text
