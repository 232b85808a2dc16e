import ProtoBind.Source.Pat

/-!
# Expressions and statements of source text
-/

set_option autoImplicit false

namespace ProtoBind.Source

mutual

inductive Expr where
  | literal (text : String)
  | path (path : Path)
  | unary (operator : String) (operand : Expr)
  | reference (mutable : Bool) (operand : Expr)
  | binary (operator : String) (left right : Expr)
  | assign (left right : Expr)
  | cast (operand : Expr) (type : Ty)
  | range (lower upper : Option Expr) (closed : Bool)
  | call (function : Expr) (arguments : List Expr)
  | method (receiver : Expr) (name : String) (types : List Argument) (arguments : List Expr)
  | field (receiver : Expr) (name : String)
  | index (receiver position : Expr)
  | question (operand : Expr)
  | await (operand : Expr)
  | paren (inner : Expr)
  | tuple (elements : List Expr)
  | array (elements : List Expr)
  | replicate (element count : Expr)
  | struct (path : Path) (fields : List (String × Option Expr)) (rest : Option Expr)
  | block (label : Option String) (body : List Stmt)
  | unsafeBlock (body : List Stmt)
  | asyncBlock (moves : Bool) (body : List Stmt)
  | closure (moves : Bool) (inputs : List Pat) (output : Option Ty) (body : Expr)
  | ifElse (condition : Expr) (body : List Stmt) (otherwise : Option Expr)
  /-- A pattern that is tried as a condition. -/
  | attempt (pattern : Pat) (value : Expr)
  | cases (value : Expr) (arms : List Arm)
  | whileLoop (label : Option String) (condition : Expr) (body : List Stmt)
  | forLoop (label : Option String) (pattern : Pat) (range : Expr) (body : List Stmt)
  | loop (label : Option String) (body : List Stmt)
  | leave (value : Option Expr)
  | exit (label : Option String) (value : Option Expr)
  | again (label : Option String)

inductive Arm where
  | mk (pattern : Pat) (guard : Option Expr) (body : Expr)

inductive Stmt where
  | bind (pattern : Pat) (value : Option Expr) (otherwise : Option (List Stmt))
  | eval (value : Expr) (ended : Bool)
  /-- A semicolon alone. -/
  | empty

end

instance : Inhabited Expr := ⟨.tuple []⟩

namespace Expr

/-- Whether an expression stands bare as the only argument of a call. -/
def isBlocklike : Expr → Bool
  | .array _ | .asyncBlock _ _ | .block none _ | .closure _ _ _ _ | .struct _ _ _ | .tuple _
  | .unsafeBlock _ => true
  | _ => false

/-- Whether an expression is a name that is no longer than a step. -/
def isShortName (limit : Nat) : Expr → Bool
  | .path p => p.ident?.any fun name => decide (name.utf8ByteSize ≤ limit)
  | _ => false

/-- Whether a brace behind the expression goes on a line of its own if the expression is divided. -/
def bracesApart : Expr → Bool
  | .assign _ _ | .await _ | .binary _ _ _ | .cast _ _ | .field _ _ | .index _ _
  | .method _ _ _ _ => true
  | .call e _ | .attempt _ e | .paren e | .range _ (some e) _ | .reference _ e | .leave (some e)
  | .exit _ (some e) | .question e | .unary _ e => bracesApart e
  | _ => false

def writingOperators : List String := ["+=", "-=", "*=", "/=", "%=", "^=", "&=", "|=", "<<=", ">>="]

/-- Whether a statement that the expression ends gets a semicolon though it has none. -/
def wantsSemicolon : Expr → Bool
  | .assign _ _ | .exit _ _ | .again _ | .leave _ => true
  | .binary operator _ _ => writingOperators.contains operator
  | _ => false

/-- Whether a statement loses its semicolon behind the expression. -/
def shedsSemicolon : Expr → Bool
  | .forLoop _ _ _ _ | .whileLoop _ _ _ => true
  | .ifElse _ _ none => true
  | .ifElse _ _ (some e) => shedsSemicolon e
  | _ => false

/-- Whether an expression may end a statement without a semicolon before another statement. -/
def endsStatement : Expr → Bool
  | .ifElse _ _ _ | .cases _ _ | .block _ _ | .unsafeBlock _ | .whileLoop _ _ _ | .loop _ _
  | .forLoop _ _ _ _ => true
  | _ => false

/-- Whether a literal is a number with a point or an exponent, or is marked as one. -/
def isFloat (text : String) : Bool :=
  let cs := text.toList
  cs.head?.any Char.isDigit
    && !(text.startsWith "0x" || text.startsWith "0o" || text.startsWith "0b")
    && (cs.contains '.' || cs.contains 'e' || cs.contains 'E' || text.endsWith "f32"
      || text.endsWith "f64")

/-- Whether a literal is a whole number, a character or a truth value. -/
def isPlainLiteral (text : String) : Bool :=
  !isFloat text
    && (text.toList.head?.any Char.isDigit || text.startsWith "'" || text.startsWith "b'"
      || text == "true" || text == "false")

def isPlain : Expr → Bool
  | .literal text => isPlainLiteral text
  | _ => false

end Expr

end ProtoBind.Source
