import ProtoBind.Source.Parser.Basic
import ProtoBind.Source.Ty

/-!
# Parsing types and paths
-/

set_option autoImplicit false

namespace ProtoBind.Source.Parser

/-- Words that may stand in a path though they are no names, and take no arguments there. -/
def pathWords : List String := ["super", "self", "crate", "try"]

def atSegment : Parser Bool := fun tokens =>
  match afterMarks [':', ':'] tokens with
  | some (.group .parenthesis _ :: _) | none => some (false, tokens)
  | some _ => some (true, tokens)

def atTurbofish : Parser Bool := fun tokens =>
  match afterMarks [':', ':'] tokens with
  | some rest => some ((afterMarks ['<'] rest).isSome, tokens)
  | none => some (false, tokens)

def atAngle : Parser Bool := do
  return (← atMark "<") && !(← atMark "<=")

def segmentName : Parser String
  | .word name :: rest =>
    if isName name ∨ name = "Self" ∨ pathWords.contains name then some (name, rest) else none
  | _ => none

mutual

/-- Parses a type. A sum of bounds is only one type where `sums` allows it. -/
def ty : Nat → Bool → Parser Ty
  | 0, _ => fail
  | fuel + 1, sums => do
    match ← peek with
    | some (.group .parenthesis _) =>
      let (elements, ended) ← inGroup .parenthesis (commas (ty fuel true))
      match elements, ended with
      | [inner], false => return .paren inner
      | elements, _ => return .tuple elements
    | some (.group .bracket _) => inGroup .bracket (bracketTy fuel)
    | some (.mark '!' _) =>
      mark "!"
      return .never
    | some (.mark '*' _) =>
      mark "*"
      if ← eatWord "mut" then return .pointer true (← ty fuel false)
      else
        word "const"
        return .pointer false (← ty fuel false)
    | some (.mark '&' _) =>
      mark "&"
      let lifetime ← lifetime?
      let mutable ← eatWord "mut"
      return .reference lifetime mutable (← ty fuel false)
    | some (.word "_") =>
      word "_"
      return .inferred
    | some (.word "impl") =>
      word "impl"
      return .impl (← bounds fuel sums)
    | some (.word "dyn") =>
      word "dyn"
      return .dyn (← bounds fuel sums)
    | _ => return .path (← path fuel false)

def bracketTy : Nat → Parser Ty
  | 0 => fail
  | fuel + 1 => do
    let element ← ty fuel true
    if ← eatMark ";" then
      if ← atLiteral then return .array element (← literal)
      else return .array element (← name)
    else return .slice element

/-- Parses a path. In an expression the arguments of its names are marked as such. -/
def path : Nat → Bool → Parser Path
  | 0, _ => fail
  | fuel + 1, inExpr => do
    let rooted ← eatMark "::"
    return .mk rooted (← segments fuel inExpr)

def segments : Nat → Bool → Parser (List Segment)
  | 0, _ => fail
  | fuel + 1, inExpr => do
    let name ← segmentName
    let arguments ← if pathWords.contains name then pure .none else arguments fuel inExpr
    if ← atSegment then
      mark "::"
      return .mk name arguments :: (← segments fuel inExpr)
    else return [.mk name arguments]

def arguments : Nat → Bool → Parser Arguments
  | 0, _ => fail
  | fuel + 1, inExpr => do
    if ← atTurbofish then
      mark "::"
      return .angled (← angled fuel)
    else if !inExpr && (← atAngle) then return .angled (← angled fuel)
    else if !inExpr && (← atGroup .parenthesis) then
      let (inputs, _) ← inGroup .parenthesis (commas (ty fuel true))
      if ← eatMark "->" then return .called inputs (some (← ty fuel false))
      else return .called inputs none
    else return .none

def angled : Nat → Parser (List Argument)
  | 0 => fail
  | fuel + 1 => do
    mark "<"
    let elements ← commasBefore (argument fuel) ">"
    mark ">"
    return elements

def argument : Nat → Parser Argument
  | 0 => fail
  | fuel + 1 => do
    if ← atLifetime then return .lifetime (← lifetime)
    else if ← atLiteral then return .literal (← literal)
    else
      let type ← ty fuel true
      match type with
      | .path path =>
        match path.ident? with
        | some name =>
          if ← eatMark "=" then return .equality name (← ty fuel true) else return .type type
        | none => return .type type
      | _ => return .type type

def bounds : Nat → Bool → Parser (List Bound)
  | 0, _ => fail
  | fuel + 1, sums => do
    let first ← bound fuel
    if sums then
      if ← eatMark "+" then return first :: (← bounds fuel sums) else return [first]
    else return [first]

def bound : Nat → Parser Bound
  | 0 => fail
  | fuel + 1 => do
    if ← atLifetime then return .lifetime (← lifetime)
    else
      let maybe ← eatMark "?"
      return .trait maybe (← path fuel false)

end

end ProtoBind.Source.Parser
