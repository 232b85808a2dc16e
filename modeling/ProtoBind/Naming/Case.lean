/-!
# Case conversions

Names of types, fields, constants and modules, made from the names of a schema. All conversions know
ASCII letters only and leave every other character as it is.
-/

set_option autoImplicit false

namespace ProtoBind.Naming

/-- Drops underscores and raises the letter behind each of them; `raise` asks for the first one too. -/
def humps (raise : Bool) : List Char → List Char
  | [] => []
  | c :: cs =>
    if c = '_' then humps true cs
    else (if raise then c.toUpper else c) :: humps false cs

/-- `user_profile` and `userProfile` become `UserProfile`; what would begin with a digit, or be
nothing, gets an `X` in front. -/
def pascal (name : String) : String :=
  match humps true name.toList with
  | [] => "X"
  | c :: cs => String.ofList (if c.isDigit then 'X' :: c :: cs else c :: cs)

def reservedTypeNames : List String :=
  ["Self", "Option", "Some", "None", "Result", "Ok", "Err", "Box", "Vec", "String", "HashMap",
    "Default", "PartialEq", "Serialize", "Deserialize"]

/-- A reserved type name gets an underscore behind it. No other type name ends in one. -/
def escapeTypeName (name : String) : String :=
  if name ∈ reservedTypeNames then name ++ "_" else name

def typeName (name : String) : String := escapeTypeName (pascal name)

/-- The type name of a dotted path: `Outer.inner` becomes `OuterInner`. -/
def typePathName (parts : List String) : String := escapeTypeName (String.join (parts.map pascal))

/-- Whether an underscore stands between a letter and the one before it: after a small letter or a
digit, and where a run of capitals ends in a capitalised word. -/
def startsWord (previous : Option Char) (next : Option Char) : Bool :=
  match previous with
  | none => false
  | some p => p.isLower || p.isDigit || (p.isUpper && next.any Char.isLower)

def snakeFrom (previous : Option Char) : List Char → List Char
  | [] => []
  | c :: cs =>
    if c.isUpper then
      if startsWord previous cs.head? then '_' :: c.toLower :: snakeFrom (some c) cs
      else c.toLower :: snakeFrom (some c) cs
    else c :: snakeFrom (some c) cs

/-- `HTTPServer` becomes `http_server`. -/
def snake (name : String) : String := String.ofList (snakeFrom none name.toList)

def upper (name : String) : String := String.ofList (name.toList.map Char.toUpper)

def lower (name : String) : String := String.ofList (name.toList.map Char.toLower)

/-- `OuterInner` becomes `OUTER_INNER`. -/
def screamingSnake (name : String) : String := upper (snake name)

def keywords : List String :=
  ["as", "async", "await", "break", "const", "continue", "crate", "dyn", "else", "enum", "extern",
    "false", "fn", "for", "if", "impl", "in", "let", "loop", "match", "mod", "move", "mut", "pub",
    "ref", "return", "self", "Self", "static", "struct", "super", "trait", "true", "type", "unsafe",
    "use", "where", "while", "abstract", "become", "box", "do", "final", "macro", "override", "priv",
    "try", "typeof", "unsized", "virtual", "yield"]

def isKeyword (name : String) : Bool := keywords.contains name

/-- Keywords that have no raw form, and the single underscore. -/
def rootWords : List String := ["self", "Self", "super", "crate", "_"]

/-- A field name that can be declared: a keyword is written raw, or gets an underscore behind it where it
has no raw form. -/
def fieldIdentifier (name : String) : String :=
  if name ∈ rootWords then name ++ "_"
  else if isKeyword name then "r#" ++ name
  else name

/-- A letter, digit or underscore of a module name; anything else becomes an underscore. -/
def moduleChar (c : Char) : Char :=
  if c.isLower || c.isDigit || c == '_' then c
  else if c.isUpper then c.toLower
  else '_'

/-- The name with an underscore in front if it is empty or begins with a digit. -/
def padStart : List Char → List Char
  | [] => ['_']
  | c :: cs => if c.isDigit then '_' :: c :: cs else c :: cs

/-- The text as the name of a module: `user.v1` becomes `user_v1`. -/
def moduleName (name : String) : String :=
  let padded := String.ofList (padStart (name.toList.map moduleChar))
  if isKeyword padded then padded ++ "_" else padded

end ProtoBind.Naming
