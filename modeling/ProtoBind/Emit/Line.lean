import ProtoBind.Text.Lines

/-!
# Lines of emitted source

Emitted source is a list of lines, each with its depth and its role, so that comments and code stay
apart until `render` writes the text.
-/

set_option autoImplicit false

namespace ProtoBind.Emit

inductive Line where
  | code (depth : Nat) (text : String)
  /-- A comment on the item that follows. -/
  | doc (depth : Nat) (text : String)
  /-- A comment on the file. -/
  | innerDoc (text : String)
  | blank
  deriving DecidableEq, Repr

/-- A comment marker with its text behind a blank, or alone. -/
def marked (marker text : String) : String := if text = "" then marker else marker ++ " " ++ text

namespace Line

def indentation (depth : Nat) : String := "".pushn ' ' (4 * depth)

def text : Line → String
  | .code depth text => indentation depth ++ text
  | .doc depth text => indentation depth ++ marked "///" text
  | .innerDoc text => marked "//!" text
  | .blank => ""

def deeper : Line → Line
  | .code depth text => .code (depth + 1) text
  | .doc depth text => .doc (depth + 1) text
  | line => line

end Line

def code (text : String) : Line := .code 0 text

def nest (lines : List Line) : List Line := lines.map Line.deeper

def block (opening : String) (body : List Line) (closing : String) : List Line :=
  code opening :: nest body ++ [code closing]

def render (lines : List Line) : String := String.join (lines.map fun line => line.text ++ "\n")

def deprecationNote : String := "Deprecated: Do not use."

def docLines (comment : Option String) : List Line :=
  match comment with
  | none => []
  | some comment => (Text.commentLines comment).map (.doc 0)

/-- The comment on an element, followed by a note if it should no longer be used. -/
def documentation (comment : Option String) (deprecated : Bool) : List Line :=
  if deprecated then
    docLines comment ++ (if comment.isSome then [.doc 0 ""] else []) ++ [.doc 0 deprecationNote]
  else docLines comment

end ProtoBind.Emit
