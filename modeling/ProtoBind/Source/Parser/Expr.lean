import ProtoBind.Source.Expr
import ProtoBind.Source.Parser.Pat

/-!
# Parsing expressions and statements
-/

set_option autoImplicit false

namespace ProtoBind.Source.Parser

/-- How tightly an operator binds its operands; a higher one binds more tightly. -/
abbrev Precedence := Nat

namespace Precedence

def assignment : Precedence := 1
def range : Precedence := 2
def disjunction : Precedence := 3
def conjunction : Precedence := 4
def comparison : Precedence := 5
def bitOr : Precedence := 6
def bitXor : Precedence := 7
def bitAnd : Precedence := 8
def shift : Precedence := 9
def sum : Precedence := 10
def product : Precedence := 11
def cast : Precedence := 12

end Precedence

open Precedence in
def operators : List (String × Precedence) :=
  [("<<=", assignment), (">>=", assignment), ("+=", assignment), ("-=", assignment),
    ("*=", assignment), ("/=", assignment), ("%=", assignment), ("^=", assignment),
    ("&=", assignment), ("|=", assignment), ("==", comparison), ("!=", comparison),
    ("<=", comparison), (">=", comparison), ("&&", conjunction), ("||", disjunction), ("<<", shift),
    (">>", shift), ("+", sum), ("-", sum), ("*", product), ("/", product), ("%", product),
    ("^", bitXor), ("&", bitAnd), ("|", bitOr), ("<", comparison), (">", comparison)]

def operator? : Parser (Option (String × Precedence)) := fun tokens =>
  some (operators.find? fun (text, _) => (afterMarks text.toList tokens).isSome, tokens)

def atAssignment : Parser Bool := do
  return (← atMark "=") && !(← atMark "=>") && !(← atMark "==")

/-- How tightly what is next binds its left operand; zero if it is no operator. -/
def nextPrecedence : Parser Precedence := do
  match ← operator? with
  | some (_, precedence) => return precedence
  | none =>
    if ← atAssignment then return Precedence.assignment
    else if ← atMark ".." then return Precedence.range
    else if ← atWord "as" then return Precedence.cast
    else return 0

/-- Whether an operator may stand between the operands it would get: comparisons are not chained. -/
def mayFollow (left : Expr) (precedence : Precedence) : Bool :=
  match left with
  | .binary operator _ _ =>
    !(precedence == Precedence.comparison
      && (operators.lookup operator).any (· == Precedence.comparison))
  | _ => true

def isRange : Expr → Bool
  | .range _ _ _ => true
  | _ => false

/-- Whether the value of a range, a return or a break may stand next. -/
def atValue (structs : Bool) : Parser Bool := fun tokens =>
  match tokens with
  | [] => some (false, tokens)
  | .mark c _ :: _ => some (!(c == ',' || c == ';' || c == '.' || c == '=' || c == '?'), tokens)
  | .group .brace _ :: _ => some (structs, tokens)
  | _ => some (true, tokens)

/-- The places in a tuple that a number stands for: `0.1` is a place in a place. -/
def tuplePlaces (text : String) : List String :=
  let cs := text.toList
  let digits := cs.takeWhile Char.isDigit
  match cs.drop digits.length with
  | '.' :: rest =>
    if rest.all Char.isDigit ∧ digits ≠ [] ∧ rest ≠ [] then [String.ofList digits, String.ofList rest]
    else []
  | [] => if digits ≠ [] then [text] else []
  | _ => []

/-- Whether an expression is next that begins with a block or a loop. -/
def atBlock : Parser Bool := fun tokens =>
  match tokens with
  | .group .brace _ :: _ => some (true, tokens)
  | .mark '\x27' _ :: _ => some (true, tokens)
  | .word "unsafe" :: .group .brace _ :: _ => some (true, tokens)
  | .word name :: _ => some (["if", "match", "loop", "while", "for"].contains name, tokens)
  | _ => some (false, tokens)

mutual

/-- Parses an expression. A path before a brace begins a structure where `structs` allows it. -/
def expr : Nat → Bool → Parser Expr
  | 0, _ => fail
  | fuel + 1, structs => do
    let left ← unary fuel structs
    exprFrom fuel structs Precedence.assignment left

/-- Parses what follows the left operand of operators that bind at least as tightly as `least`. -/
def exprFrom : Nat → Bool → Precedence → Expr → Parser Expr
  | 0, _, _, _ => fail
  | fuel + 1, structs, least, left => do
    match ← operator? with
    | some (operator, precedence) =>
      if precedence < least || (precedence == Precedence.assignment && isRange left) then return left
      else if !mayFollow left precedence then fail
      else
        mark operator
        let right ← operand fuel structs precedence
        exprFrom fuel structs least (.binary operator left right)
    | none =>
      if least ≤ Precedence.assignment && (← atAssignment) && !isRange left then
        mark "="
        let right ← operand fuel structs Precedence.assignment
        exprFrom fuel structs least (.assign left right)
      else if least ≤ Precedence.range && (← atMark "..") then
        let closed ← eatMark "..="
        if !closed then mark ".."
        let upper ← rangeEnd fuel structs
        exprFrom fuel structs least (.range (some left) upper closed)
      else if least ≤ Precedence.cast && (← atWord "as") then
        word "as"
        let type ← ty fuel false
        exprFrom fuel structs least (.cast left type)
      else return left

def operand : Nat → Bool → Precedence → Parser Expr
  | 0, _, _ => fail
  | fuel + 1, structs, precedence => do
    let right ← unary fuel structs
    operandFrom fuel structs precedence right

/-- Parses what binds to a right operand more tightly than the operator before it. -/
def operandFrom : Nat → Bool → Precedence → Expr → Parser Expr
  | 0, _, _, _ => fail
  | fuel + 1, structs, precedence, right => do
    let next ← nextPrecedence
    if precedence < next || (next == precedence && precedence == Precedence.assignment) then
      if next == Precedence.assignment && isRange right then return right
      else
        let right ← exprFrom fuel structs next right
        operandFrom fuel structs precedence right
    else return right

def rangeEnd : Nat → Bool → Parser (Option Expr)
  | 0, _ => fail
  | fuel + 1, structs => do
    if ← atValue structs then return some (← operand fuel structs Precedence.range)
    else return none

def unary : Nat → Bool → Parser Expr
  | 0, _ => fail
  | fuel + 1, structs => do
    match ← peek with
    | some (.mark '&' _) =>
      mark "&"
      let mutable ← eatWord "mut"
      return .reference mutable (← unary fuel structs)
    | some (.mark '*' _) =>
      mark "*"
      return .unary "*" (← unary fuel structs)
    | some (.mark '!' _) =>
      mark "!"
      return .unary "!" (← unary fuel structs)
    | some (.mark '-' _) =>
      mark "-"
      return .unary "-" (← unary fuel structs)
    | _ =>
      let inner ← atom fuel structs
      trailing fuel inner

def trailing : Nat → Expr → Parser Expr
  | 0, _ => fail
  | fuel + 1, inner => do
    if ← atGroup .parenthesis then
      let (arguments, _) ← inGroup .parenthesis (commas (expr fuel true))
      trailing fuel (.call inner arguments)
    else if ← atGroup .bracket then
      let position ← inGroup .bracket (expr fuel true)
      trailing fuel (.index inner position)
    else if ← eatMark "?" then trailing fuel (.question inner)
    else if (← atMark ".") && !(← atMark "..") && !isRange inner then
      mark "."
      if ← eatWord "await" then trailing fuel (.await inner)
      else if ← atLiteral then
        let places := tuplePlaces (← literal)
        if places.isEmpty then fail
        else trailing fuel (places.foldl Expr.field inner)
      else
        let name ← name
        if ← atTurbofish then
          mark "::"
          let types ← angled fuel
          let (arguments, _) ← inGroup .parenthesis (commas (expr fuel true))
          trailing fuel (.method inner name types arguments)
        else if ← atGroup .parenthesis then
          let (arguments, _) ← inGroup .parenthesis (commas (expr fuel true))
          trailing fuel (.method inner name [] arguments)
        else trailing fuel (.field inner name)
    else return inner

def atom : Nat → Bool → Parser Expr
  | 0, _ => fail
  | fuel + 1, structs => do
    if ← atMark ".." then
      let closed ← eatMark "..="
      if !closed then mark ".."
      let upper ← rangeEnd fuel structs
      return .range none upper closed
    else if ← atLifetime then
      let label ← lifetime
      mark ":"
      labelled fuel (some label)
    else match ← peek with
      | some (.literal _) => return .literal (← literal)
      | some (.mark '|' _) => closure fuel structs false
      | some (.group .parenthesis _) =>
        let (elements, ended) ← inGroup .parenthesis (commas (expr fuel true))
        match elements, ended with
        | [inner], false => return .paren inner
        | elements, _ => return .tuple elements
      | some (.group .bracket _) => inGroup .bracket (bracketExpr fuel)
      | some (.group .brace _) => labelled fuel none
      | some (.word keyword) =>
        match keyword with
        | "true" | "false" => return .literal (← anyWord)
        | "_" => return .path (.ofName (← anyWord))
        | "move" =>
          word "move"
          closure fuel structs true
        | "async" =>
          word "async"
          let moves ← eatWord "move"
          return .asyncBlock moves (← body fuel)
        | "unsafe" =>
          word "unsafe"
          return .unsafeBlock (← body fuel)
        | "if" => conditional fuel
        | "match" =>
          word "match"
          let value ← expr fuel false
          let arms ← inGroup .brace (arms fuel)
          return .cases value arms
        | "loop" | "while" | "for" => labelled fuel none
        | "let" =>
          word "let"
          let pattern ← patterns fuel
          mark "="
          let value ← unary fuel false
          return .attempt pattern (← exprFrom fuel false Precedence.comparison value)
        | "return" =>
          word "return"
          if ← atValue structs then return .leave (some (← expr fuel structs)) else return .leave none
        | "break" =>
          word "break"
          let label ← lifetime?
          if ← atValue structs then return .exit label (some (← expr fuel structs))
          else return .exit label none
        | "continue" =>
          word "continue"
          return .again (← lifetime?)
        | _ => pathExpr fuel structs
      | _ => pathExpr fuel structs

def pathExpr : Nat → Bool → Parser Expr
  | 0, _ => fail
  | fuel + 1, structs => do
    let path ← path fuel true
    if (← atMark "!") && !(← atMark "!=") then fail
    else if structs && (← atGroup .brace) then
      let (fields, rest) ← inGroup .brace (fieldValues fuel)
      return .struct path fields rest
    else return .path path

/-- Parses the fields of a structure, and the value that gives the others. -/
def fieldValues : Nat → Parser (List (String × Option Expr) × Option Expr)
  | 0 => fail
  | fuel + 1 => do
    if ← atEnd then return ([], none)
    else if ← eatMark ".." then return ([], some (← expr fuel true))
    else
      let name ← if ← atLiteral then literal else name
      let value ← if ← eatMark ":" then some <$> expr fuel true else pure none
      if ← atEnd then return ([(name, value)], none)
      else
        mark ","
        let (fields, rest) ← fieldValues fuel
        return ((name, value) :: fields, rest)

def bracketExpr : Nat → Parser Expr
  | 0 => fail
  | fuel + 1 => do
    if ← atEnd then return .array []
    else
      let first ← expr fuel true
      if ← eatMark ";" then return .replicate first (← expr fuel true)
      else if ← atEnd then return .array [first]
      else
        mark ","
        let (more, _) ← commas (expr fuel true)
        return .array (first :: more)

def closure : Nat → Bool → Bool → Parser Expr
  | 0, _, _ => fail
  | fuel + 1, structs, moves => do
    mark "|"
    let inputs ← commasBefore (typedPattern fuel) "|"
    mark "|"
    if ← eatMark "->" then
      let output ← ty fuel false
      let inner ← body fuel
      return .closure moves inputs (some output) (.block none inner)
    else return .closure moves inputs none (← expr fuel structs)

def labelled : Nat → Option String → Parser Expr
  | 0, _ => fail
  | fuel + 1, label => do
    if ← eatWord "loop" then return .loop label (← body fuel)
    else if ← eatWord "while" then
      let condition ← expr fuel false
      return .whileLoop label condition (← body fuel)
    else if ← eatWord "for" then
      let pattern ← patterns fuel
      word "in"
      let range ← expr fuel false
      return .forLoop label pattern range (← body fuel)
    else return .block label (← body fuel)

def conditional : Nat → Parser Expr
  | 0 => fail
  | fuel + 1 => do
    word "if"
    let condition ← expr fuel false
    let inner ← body fuel
    if ← eatWord "else" then
      if ← atWord "if" then return .ifElse condition inner (some (← conditional fuel))
      else return .ifElse condition inner (some (.block none (← body fuel)))
    else return .ifElse condition inner none

def arms : Nat → Parser (List Arm)
  | 0 => fail
  | fuel + 1 => do
    if ← atEnd then return []
    else
      let pattern ← patterns fuel
      let guard ← if ← eatWord "if" then some <$> expr fuel true else pure none
      mark "=>"
      let inner ← statementExpr fuel
      let ended ← eatMark ","
      if !ended && !inner.endsStatement && !(← atEnd) then fail
      else return .mk pattern guard inner :: (← arms fuel)

def body : Nat → Parser (List Stmt)
  | 0 => fail
  | fuel + 1 => inGroup .brace (statements fuel)

def statements : Nat → Parser (List Stmt)
  | 0 => fail
  | fuel + 1 => do
    if ← atEnd then return []
    else if ← eatMark ";" then return .empty :: (← statements fuel)
    else
      let first ← statement fuel
      match first with
      | .eval inner false =>
        if !inner.endsStatement && !(← atEnd) then fail
        else return first :: (← statements fuel)
      | _ => return first :: (← statements fuel)

def statement : Nat → Parser Stmt
  | 0 => fail
  | fuel + 1 => do
    if ← eatWord "let" then
      let inner ← pattern fuel
      let inner ← if ← eatMark ":" then Pat.typed inner <$> ty fuel true else pure inner
      if ← eatMark "=" then
        let value ← expr fuel true
        let otherwise ← if ← eatWord "else" then some <$> body fuel else pure none
        mark ";"
        return .bind inner (some value) otherwise
      else
        mark ";"
        return .bind inner none none
    else
      let value ← statementExpr fuel
      return .eval value (← eatMark ";")

/-- Parses an expression that begins a statement or an arm. One that begins with a block ends behind
it, unless a point or a question mark follows. -/
def statementExpr : Nat → Parser Expr
  | 0 => fail
  | fuel + 1 => do
    if ← atBlock then
      let first ← atom fuel true
      if ((← atMark ".") && !(← atMark "..")) || (← atMark "?") then
        let inner ← trailing fuel first
        exprFrom fuel true Precedence.assignment inner
      else return first
    else expr fuel true

end

end ProtoBind.Source.Parser
