import ProtoBind.Source.Parser.Ty
import ProtoBind.Source.Pat

/-!
# Parsing patterns
-/

set_option autoImplicit false

namespace ProtoBind.Source.Parser

def truthWords : List String := ["true", "false"]

def patternLiteral : Parser String := do
  if ← eatMark "-" then return "-" ++ (← literal)
  else match ← peek with
    | some (.word name) => if truthWords.contains name then anyWord else fail
    | _ => literal

def atBinding : Parser Bool := fun tokens =>
  match tokens with
  | .word name :: rest =>
    if !isName name then some (name == "self", tokens)
    else match rest with
      | .group .parenthesis _ :: _ | .group .brace _ :: _ | .mark '!' _ :: _ => some (false, tokens)
      | rest =>
        some ((afterMarks [':', ':'] rest).isNone && (afterMarks ['.', '.'] rest).isNone, tokens)
  | _ => some (false, tokens)

mutual

def patterns : Nat → Parser Pat
  | 0 => fail
  | fuel + 1 => do
    let _ ← eatMark "|"
    let cases ← separated (pattern fuel) "|"
    match cases with
    | [single] => return single
    | cases => return .either cases

def pattern : Nat → Parser Pat
  | 0 => fail
  | fuel + 1 => do
    if ← atMark ".." then
      mark ".."
      return .dots
    else match ← peek with
      | some (.word "_") =>
        word "_"
        return .wild
      | some (.mark '&' _) =>
        mark "&"
        let mutable ← eatWord "mut"
        return .reference mutable (← pattern fuel)
      | some (.group .parenthesis _) =>
        let (elements, ended) ← inGroup .parenthesis (commas (patterns fuel))
        match elements, ended with
        | [inner], false => return .paren inner
        | elements, _ => return .tuple elements
      | some (.group .bracket _) =>
        let (elements, _) ← inGroup .bracket (commas (patterns fuel))
        return .slice elements
      | some (.word "ref") | some (.word "mut") => binding fuel
      | some (.literal _) | some (.mark '-' _) | some (.word "true") | some (.word "false") =>
        let lower ← patternLiteral
        if ← eatMark "..=" then return .range lower (← patternLiteral) true
        else if ← eatMark ".." then return .range lower (← patternLiteral) false
        else return .literal lower
      | _ => if ← atBinding then binding fuel else pathPattern fuel

def binding : Nat → Parser Pat
  | 0 => fail
  | fuel + 1 => do
    let byRef ← eatWord "ref"
    let mutable ← eatWord "mut"
    let name ← if ← atWord "self" then anyWord else name
    if ← eatMark "@" then return .bind byRef mutable name (some (← pattern fuel))
    else return .bind byRef mutable name none

def pathPattern : Nat → Parser Pat
  | 0 => fail
  | fuel + 1 => do
    let path ← path fuel true
    if ← atGroup .parenthesis then
      let (elements, _) ← inGroup .parenthesis (commas (patterns fuel))
      return .tupleStruct path elements
    else if ← atGroup .brace then
      let (fields, more) ← inGroup .brace (fieldPatterns fuel)
      return .struct path fields more
    else return .path path

/-- Parses the fields of a structure pattern, and whether there may be more. -/
def fieldPatterns : Nat → Parser (List (String × Option Pat) × Bool)
  | 0 => fail
  | fuel + 1 => do
    if ← atEnd then return ([], false)
    else if ← eatMark ".." then return ([], true)
    else
      let name ← name
      let inner ← if ← eatMark ":" then some <$> patterns fuel else pure none
      if ← atEnd then return ([(name, inner)], false)
      else
        mark ","
        let (fields, more) ← fieldPatterns fuel
        return ((name, inner) :: fields, more)

end

def typedPattern (fuel : Nat) : Parser Pat := do
  let inner ← pattern fuel
  if ← eatMark ":" then return .typed inner (← ty fuel true) else return inner

end ProtoBind.Source.Parser
