import ProtoBind.Source.Token

/-!
# Parsers

A parser takes tokens from the front of a sequence and either gives a value and what is left, or
fails. Parsers that call one another are given a number of calls after which they fail.
-/

set_option autoImplicit false

namespace ProtoBind.Source

abbrev Parser (α : Type) := StateT (List Token) Option α

namespace Parser

variable {α : Type}

def fail : Parser α := fun _ => none

def atEnd : Parser Bool := fun tokens => some (tokens.isEmpty, tokens)

def peek : Parser (Option Token) := fun tokens => some (tokens.head?, tokens)

/-- What is left behind these joined marks. The last of them may be joined to more. -/
def afterMarks : List Char → List Token → Option (List Token)
  | [], tokens => some tokens
  | [c], .mark d _ :: rest => if c = d then some rest else none
  | c :: more, .mark d true :: rest => if c = d then afterMarks more rest else none
  | _ :: _, _ => none

def mark (text : String) : Parser Unit := fun tokens =>
  (afterMarks text.toList tokens).map fun rest => ((), rest)

def atMark (text : String) : Parser Bool := fun tokens =>
  some ((afterMarks text.toList tokens).isSome, tokens)

def eatMark (text : String) : Parser Bool := fun tokens =>
  match afterMarks text.toList tokens with
  | some rest => some (true, rest)
  | none => some (false, tokens)

def anyWord : Parser String
  | .word name :: rest => some (name, rest)
  | _ => none

def word (name : String) : Parser Unit
  | .word other :: rest => if other = name then some ((), rest) else none
  | _ => none

def atWord (name : String) : Parser Bool := fun tokens =>
  match tokens with
  | .word other :: _ => some (other == name, tokens)
  | _ => some (false, tokens)

def eatWord (name : String) : Parser Bool := fun tokens =>
  match tokens with
  | .word other :: rest => if other = name then some (true, rest) else some (false, tokens)
  | _ => some (false, tokens)

def reservedWords : List String :=
  ["_", "abstract", "as", "async", "await", "become", "box", "break", "const", "continue", "crate", "do", "dyn",
    "else", "enum", "extern", "false", "final", "fn", "for", "if", "impl", "in", "let", "loop", "macro", "match",
    "mod", "move", "mut", "override", "priv", "pub", "ref", "return", "Self", "self", "static", "struct", "super",
    "trait", "true", "try", "type", "typeof", "unsafe", "unsized", "use", "virtual", "where", "while", "yield"]

def isName (name : String) : Bool := !reservedWords.contains name

def name : Parser String
  | .word name :: rest => if isName name then some (name, rest) else none
  | _ => none

def literal : Parser String
  | .literal text :: rest => some (text, rest)
  | _ => none

def atLiteral : Parser Bool := fun tokens =>
  match tokens with
  | .literal _ :: _ => some (true, tokens)
  | _ => some (false, tokens)

def lifetime : Parser String
  | .mark '\x27' _ :: .word name :: rest => some ("'" ++ name, rest)
  | _ => none

def atLifetime : Parser Bool := fun tokens =>
  match tokens with
  | .mark '\x27' _ :: .word _ :: _ => some (true, tokens)
  | _ => some (false, tokens)

def lifetime? : Parser (Option String) := do
  if ← atLifetime then return some (← lifetime) else return none

def atGroup (delimiter : Delimiter) : Parser Bool := fun tokens =>
  match tokens with
  | .group d _ :: _ => some (d == delimiter, tokens)
  | _ => some (false, tokens)

def whole (p : Parser α) (tokens : List Token) : Option α :=
  match p tokens with
  | some (a, []) => some a
  | _ => none

def inGroup (delimiter : Delimiter) (p : Parser α) : Parser α
  | .group d inner :: rest =>
    if d = delimiter then (whole p inner).map fun a => (a, rest) else none
  | _ => none

def manyUpTo (p : Parser α) : Nat → Parser (List α)
  | 0 => do if ← atEnd then return [] else fail
  | n + 1 => do
    if ← atEnd then return []
    else
      let a ← p
      let more ← manyUpTo p n
      return a :: more

/-- Parses again and again to the end. Each time takes a token at least. -/
def many (p : Parser α) : Parser (List α) := fun tokens => manyUpTo p (tokens.length + 1) tokens

/-- Parses elements with commas between them to the end, not more than so many, and tells whether a
comma ends them. -/
def commasUpTo (p : Parser α) : Nat → Parser (List α × Bool)
  | 0 => do if ← atEnd then return ([], false) else fail
  | n + 1 => do
    if ← atEnd then return ([], false)
    else
      let a ← p
      if ← atEnd then return ([a], false)
      else
        mark ","
        if ← atEnd then return ([a], true)
        else
          let (more, ended) ← commasUpTo p n
          return (a :: more, ended)

/-- Parses elements with commas between them to the end, and tells whether a comma ends them. -/
def commas (p : Parser α) : Parser (List α × Bool) := fun tokens =>
  commasUpTo p (tokens.length + 1) tokens

/-- Parses elements with commas between them up to a mark that stays, not more than so many. -/
def commasBeforeUpTo (p : Parser α) (stop : String) : Nat → Parser (List α)
  | 0 => fail
  | n + 1 => do
    if ← atMark stop then return []
    else
      let a ← p
      if ← atMark stop then return [a]
      else
        mark ","
        let more ← commasBeforeUpTo p stop n
        return a :: more

def commasBefore (p : Parser α) (stop : String) : Parser (List α) := fun tokens =>
  commasBeforeUpTo p stop (tokens.length + 1) tokens

/-- Parses elements with a mark between them, not more than so many. -/
def separatedUpTo (p : Parser α) (separator : String) : Nat → Parser (List α)
  | 0 => fail
  | n + 1 => do
    let a ← p
    if ← eatMark separator then
      let more ← separatedUpTo p separator n
      return a :: more
    else return [a]

def separated (p : Parser α) (separator : String) : Parser (List α) := fun tokens =>
  separatedUpTo p separator (tokens.length + 1) tokens

/-- Looks ahead: tells whether a parser would succeed, and leaves all tokens. -/
def succeeds (p : Parser α) : Parser Bool := fun tokens => some ((p tokens).isSome, tokens)

end Parser

/-- How many calls parsers of these tokens may make, one inside the other. -/
def callLimit (tokens : List Token) : Nat := 16 * (countAll tokens + 16)

end ProtoBind.Source
