/-!
# Tokens

Source text as a sequence of words, literals and marks, with matching delimiters around groups. A mark
that another one follows at once is joined to it; longer operators are runs of joined marks.
-/

set_option autoImplicit false

namespace ProtoBind.Source

inductive Delimiter where
  | parenthesis
  | brace
  | bracket
  deriving DecidableEq, Repr

inductive Token where
  /-- An identifier or keyword; a raw identifier keeps its marker. -/
  | word (name : String)
  | literal (text : String)
  | mark (c : Char) (joined : Bool)
  | group (delimiter : Delimiter) (inner : List Token)
  deriving Repr

instance : Inhabited Token := ⟨.word ""⟩

abbrev Tokens := List Token

mutual

def Token.count : Token → Nat
  | .group _ inner => 2 + countAll inner
  | _ => 1

/-- The number of tokens in a sequence, those inside groups with it. -/
def countAll : List Token → Nat
  | [] => 0
  | token :: rest => token.count + countAll rest

end

namespace Delimiter

def opening : Delimiter → String
  | .parenthesis => "("
  | .brace => "\x7b "
  | .bracket => "["

def closing (isEmpty : Bool) : Delimiter → String
  | .parenthesis => ")"
  | .brace => if isEmpty then "\x7d" else " \x7d"
  | .bracket => "]"

end Delimiter

mutual

def Token.spell : Token → String
  | .word name => name
  | .literal text => text
  | .mark c _ => c.toString
  | .group delimiter inner =>
    delimiter.opening ++ spellAll inner ++ delimiter.closing inner.isEmpty

/-- Tokens spelled out with a blank behind each but the last and those that are joined. -/
def spellAll : List Token → String
  | [] => ""
  | [token] => token.spell
  | .mark c true :: rest => c.toString ++ spellAll rest
  | token :: rest => token.spell ++ " " ++ spellAll rest

end

end ProtoBind.Source
