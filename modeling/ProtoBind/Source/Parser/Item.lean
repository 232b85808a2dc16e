import ProtoBind.Source.Item
import ProtoBind.Source.Lexer
import ProtoBind.Source.Parser.Expr

/-!
# Parsing items

`SourceFile.parse` reads a whole source text.
-/

set_option autoImplicit false

namespace ProtoBind.Source

namespace Parser

def plainPath : Parser Path := do
  let rooted ← eatMark "::"
  let names ← separated segmentName "::"
  return .mk rooted (names.map fun name => .mk name .none)

def attributeMeta : Parser Attribute := do
  let path ← plainPath
  match ← peek with
  | some (.group delimiter inner) => fun tokens => some (.list path delimiter inner, tokens.drop 1)
  | _ =>
    if ← eatMark "=" then
      match ← peek with
      | some (.word name) =>
        if truthWords.contains name then return .value path (← anyWord) else fail
      | _ => return .value path (← literal)
    else return .path path

def atInnerAttribute : Parser Bool := fun tokens =>
  match tokens with
  | .mark '#' _ :: .mark '!' _ :: _ => some (true, tokens)
  | _ => some (false, tokens)

def innerAttributesUpTo : Nat → Parser (List Attribute)
  | 0 => return []
  | n + 1 => do
    if ← atInnerAttribute then
      mark "#"
      mark "!"
      let first ← inGroup .bracket attributeMeta
      return first :: (← innerAttributesUpTo n)
    else return []

/-- Parses the attributes in front of an item, not more than so many. -/
def attributesUpTo : Nat → Parser (List Attribute)
  | 0 => return []
  | n + 1 => do
    if ← eatMark "#" then
      let first ← inGroup .bracket attributeMeta
      return first :: (← attributesUpTo n)
    else return []

def innerAttributes : Parser (List Attribute) := fun tokens =>
  innerAttributesUpTo tokens.length tokens

def attributes : Parser (List Attribute) := fun tokens => attributesUpTo tokens.length tokens

def visibility : Parser Visibility := do
  if ← eatWord "pub" then
    match ← peek with
    | some (.group .parenthesis [.word scope]) =>
      if ["crate", "self", "super"].contains scope then
        fun tokens => some (.within (.ofName scope), tokens.drop 1)
      else return .everyone
    | some (.group .parenthesis (.word "in" :: _)) =>
      inGroup .parenthesis do
        word "in"
        return .within (← plainPath)
    | _ => return .everyone
  else return .inherited

def useName : Parser String
  | .word name :: rest =>
    if isName name ∨ pathWords.contains name then some (name, rest) else none
  | _ => none

def useTree : Nat → Parser UseTree
  | 0 => fail
  | fuel + 1 => do
    if ← eatMark "*" then return .glob
    else if ← atGroup .brace then
      let (trees, ended) ← inGroup .brace (commas (useTree fuel))
      return .group trees ended
    else
      let name ← useName
      if ← eatMark "::" then return .path name (← useTree fuel)
      else if ← eatWord "as" then
        if ← eatWord "_" then return .rename name "_" else return .rename name (← Parser.name)
      else return .name name

def boundsAfterColon (fuel : Nat) : Parser (List Bound) := do
  if ← eatMark ":" then bounds fuel true else return []

def parameter (fuel : Nat) : Parser Parameter := do
  if ← atLifetime then
    let name ← lifetime
    if ← eatMark ":" then return .lifetime name (← separated lifetime "+")
    else return .lifetime name []
  else if ← eatWord "const" then
    let name ← Parser.name
    mark ":"
    return .const name (← ty fuel true)
  else
    let name ← Parser.name
    let bounds ← boundsAfterColon fuel
    let default ← if ← eatMark "=" then some <$> ty fuel true else pure none
    return .type name bounds default

def parameters (fuel : Nat) : Parser (List Parameter) := do
  if ← eatMark "<" then
    let found ← commasBefore (parameter fuel) ">"
    mark ">"
    return found
  else return []

def namedField (fuel : Nat) : Parser FieldItem := do
  let attributes ← attributes
  let visibility ← visibility
  let name ← Parser.name
  mark ":"
  return { attributes, visibility, name := some name, type := ← ty fuel true }

def unnamedField (fuel : Nat) : Parser FieldItem := do
  let attributes ← attributes
  let visibility ← visibility
  return { attributes, visibility, name := none, type := ← ty fuel true }

def fieldItems (fuel : Nat) : Parser FieldItems := do
  if ← atGroup .brace then
    let (fields, _) ← inGroup .brace (commas (namedField fuel))
    return .named fields
  else if ← atGroup .parenthesis then
    let (fields, _) ← inGroup .parenthesis (commas (unnamedField fuel))
    return .unnamed fields
  else return .none

def variant (fuel : Nat) : Parser Variant := do
  let attributes ← attributes
  let _ ← visibility
  let name ← Parser.name
  let fields ← fieldItems fuel
  let value ← if ← eatMark "=" then some <$> expr fuel true else pure none
  return { attributes, name, fields, value }

def receiver (fuel : Nat) : Parser Receiver := do
  let byReference ← eatMark "&"
  let lifetime ← if byReference then lifetime? else pure none
  let mutable ← eatWord "mut"
  word "self"
  let type ← if ← eatMark ":" then some <$> ty fuel true else pure none
  return { reference := if byReference then some lifetime else none, mutable, type }

def input (fuel : Nat) : Parser Input := do
  if ← succeeds (receiver fuel) then return .receiver (← receiver fuel)
  else
    let pattern ← pattern fuel
    mark ":"
    return .typed pattern (← ty fuel true)

def qualifiers : Nat → Parser (List String)
  | 0 => fail
  | n + 1 => do
    if ← atWord "fn" then return []
    else if ← eatWord "extern" then
      if ← atLiteral then
        let abi ← literal
        return ("extern " ++ abi) :: (← qualifiers n)
      else return "extern" :: (← qualifiers n)
    else
      let found ← anyWord
      if ["const", "async", "unsafe"].contains found then return found :: (← qualifiers n) else fail

def atSignature : Parser Bool := succeeds (qualifiers 5)

def signature (fuel : Nat) : Parser Signature := do
  let qualifiers ← qualifiers 5
  word "fn"
  let name ← Parser.name
  let parameters ← parameters fuel
  let (inputs, _) ← inGroup .parenthesis (commas (input fuel))
  let output ← if ← eatMark "->" then some <$> ty fuel true else pure none
  return { qualifiers, name, parameters, inputs, output }

def function (fuel : Nat) (attributes : List Attribute) (visibility : Visibility) :
    Parser Function := do
  let signature ← signature fuel
  if ← eatMark ";" then return { attributes, visibility, signature, body := none }
  else return { attributes, visibility, signature, body := some (← body fuel) }

def constant (fuel : Nat) (attributes : List Attribute) (visibility : Visibility) :
    Parser Constant := do
  let lead ←
    if ← eatWord "const" then pure "const "
    else
      word "static"
      if ← eatWord "mut" then pure "static mut " else pure "static "
  let name ← if ← eatWord "_" then pure "_" else Parser.name
  mark ":"
  let type ← ty fuel true
  let value ← if ← eatMark "=" then some <$> expr fuel true else pure none
  mark ";"
  return { attributes, visibility, lead, name, type, value }

def typeAlias (fuel : Nat) (attributes : List Attribute) (visibility : Visibility) :
    Parser TypeAlias := do
  word "type"
  let name ← Parser.name
  let parameters ← parameters fuel
  let bounds ← boundsAfterColon fuel
  let type ← if ← eatMark "=" then some <$> ty fuel true else pure none
  mark ";"
  return { attributes, visibility, name, parameters, bounds, type }

def member (fuel : Nat) : Parser Member := do
  let attributes ← attributes
  let visibility ← visibility
  if ← atSignature then return .function (← function fuel attributes visibility)
  else if ← atWord "type" then return .type (← typeAlias fuel attributes visibility)
  else if ← atWord "const" then return .constant (← constant fuel attributes visibility)
  else fail

def implementation (fuel : Nat) (attributes : List Attribute) : Parser Item := do
  let isUnsafe ← eatWord "unsafe"
  word "impl"
  let parameters ← parameters fuel
  let negative ← eatMark "!"
  let first ← ty fuel false
  if ← eatWord "for" then
    match first with
    | .path path =>
      let target ← ty fuel false
      let members ← inGroup .brace (many (member fuel))
      return .impl attributes isUnsafe parameters (some (negative, path)) target members
    | _ => fail
  else if negative then fail
  else
    let members ← inGroup .brace (many (member fuel))
    return .impl attributes isUnsafe parameters none first members

def traitItem (fuel : Nat) (attributes : List Attribute) (visibility : Visibility) :
    Parser Item := do
  let isUnsafe ← eatWord "unsafe"
  word "trait"
  let name ← Parser.name
  let parameters ← parameters fuel
  let bounds ← boundsAfterColon fuel
  let members ← inGroup .brace (many (member fuel))
  return .trait attributes visibility isUnsafe name parameters bounds members

def structItem (fuel : Nat) (attributes : List Attribute) (visibility : Visibility) :
    Parser Item := do
  word "struct"
  let name ← Parser.name
  let parameters ← parameters fuel
  let fields ← fieldItems fuel
  match fields with
  | .named _ => return .struct attributes visibility name parameters fields
  | _ =>
    mark ";"
    return .struct attributes visibility name parameters fields

def enumItem (fuel : Nat) (attributes : List Attribute) (visibility : Visibility) :
    Parser Item := do
  word "enum"
  let name ← Parser.name
  let parameters ← parameters fuel
  let (variants, _) ← inGroup .brace (commas (variant fuel))
  return .enum attributes visibility name parameters variants

def useItem (fuel : Nat) (attributes : List Attribute) (visibility : Visibility) :
    Parser UseItem := do
  word "use"
  let rooted ← eatMark "::"
  let tree ← useTree fuel
  mark ";"
  return { attributes, visibility, rooted, tree }

/-- Parses the declaration of another crate behind its attributes and visibility. -/
def externCrate (attributes : List Attribute) (visibility : Visibility) : Parser Item := do
  word "extern"
  word "crate"
  let name ← if ← eatWord "self" then pure "self" else Parser.name
  let renamed ←
    if ← eatWord "as" then
      if ← eatWord "_" then pure (some "_") else some <$> Parser.name
    else pure none
  mark ";"
  return .externCrate attributes visibility name renamed

def item : Nat → Parser Item
  | 0 => fail
  | fuel + 1 => do
    let attributes ← attributes
    let visibility ← visibility
    if ← atSignature then return .function (← function fuel attributes visibility)
    else match ← peek with
      | some (.word "use") => return .use (← useItem fuel attributes visibility)
      | some (.word "struct") => structItem fuel attributes visibility
      | some (.word "enum") => enumItem fuel attributes visibility
      | some (.word "const") | some (.word "static") =>
        let found ← constant fuel attributes visibility
        if found.value.isNone then fail else return .constant found
      | some (.word "type") =>
        let found ← typeAlias fuel attributes visibility
        if found.type.isNone then fail else return .type found
      | some (.word "trait") => traitItem fuel attributes visibility
      | some (.word "impl") =>
        match visibility with
        | .inherited => implementation fuel attributes
        | _ => fail
      | some (.word "unsafe") =>
        if ← succeeds (word "unsafe" *> word "trait") then traitItem fuel attributes visibility
        else implementation fuel attributes
      | some (.word "extern") => externCrate attributes visibility
      | some (.word "mod") =>
        word "mod"
        let name ← Parser.name
        if ← eatMark ";" then return .module attributes visibility name none
        else
          let items ← inGroup .brace (many (item fuel))
          return .module attributes visibility name (some items)
      | _ => fail

def fileWith (fuel : Nat) (shebang : Option String) : Parser SourceFile := do
  let attributes ← innerAttributes
  let items ← many (item fuel)
  return { shebang, attributes, items }

def file (shebang : Option String) : Parser SourceFile := fun tokens =>
  fileWith (callLimit tokens) shebang tokens

end Parser

def dropOrderMark : List Char → List Char
  | '\ufeff' :: cs => cs
  | cs => cs

/-- What a source text begins with for the system, and the rest. -/
def splitShebang (cs : List Char) : Option String × List Char :=
  match cs with
  | '#' :: '!' :: rest =>
    match skipSpacing (rest.length + 1) rest with
    | '[' :: _ => (none, cs)
    | _ => (some (String.ofList (cs.takeWhile (· != '\n'))), cs.dropWhile (· != '\n'))
  | _ => (none, cs)
where
  /-- What follows the blanks and plain comments at the start of a text. -/
  skipSpacing : Nat → List Char → List Char
    | 0, cs => cs
    | fuel + 1, cs =>
      match dropSpacing cs with
      | some rest => skipSpacing fuel rest
      | none => cs

def SourceFile.parse (text : String) : Option SourceFile :=
  let (shebang, cs) := splitShebang (dropOrderMark text.toList)
  (lex cs).bind (Parser.whole (Parser.file shebang))

end ProtoBind.Source
