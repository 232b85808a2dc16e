import ProtoBind.Source.Expr
import ProtoBind.Source.Printer.Pat

/-!
# Printing expressions and statements

Calls of methods, fields and the like form chains: all links of a chain share one box, so either none
or each of them begins a line.
-/

set_option autoImplicit false

namespace ProtoBind.Source

open Layout

/-- The arguments of a call; a single one that is like a block stands bare. -/
def argumentsDoc (bare : Bool) (arguments : List Docs) : Docs :=
  match bare, arguments with
  | true, [only] => only
  | _, arguments => commaList arguments

def labelDoc (label : Option String) : Docs :=
  match label with
  | some name => word (name ++ ": ")
  | none => []

def jumpDoc (keyword : String) (label : Option String) : Docs :=
  match label with
  | some name => word (keyword ++ " " ++ name)
  | none => word keyword

/-- The break before a link of a chain. There is none behind a short name that begins a line. -/
def linkBreak (beginsLine : Bool) (receiver : Expr) : Docs :=
  if beginsLine && receiver.isShortName step then [] else zero

def beforeBrace (value : Expr) : Docs := if value.bracesApart then space else blank

def conditionDoc (value : Expr) (doc : Docs) : Docs := flush (doc ++ beforeBrace value)

def bracedDoc (statements : Docs) : Docs :=
  word "\x7b" ++ never ++ indented (dedent (hardIfMore ++ statements)) ++ word "\x7d"

/-- Statements between braces, where an expression alone may share the line of the braces. -/
def smallBlockDoc (isEmpty : Bool) (statements : Docs) : Docs :=
  if isEmpty then word "\x7b\x7d" else word "\x7b" ++ dedent (space ++ statements) ++ word "\x7d"

def Expr.needsComma (value : Expr) : Bool := !value.endsStatement

/-- An expression that gets braces if it does not fit on its line. -/
def bracedIfDivided (value : Expr) (doc : Docs) (otherwise : String) : Docs :=
  never ++ indented ([.brk { before := "\x7b" }] ++ doc
    ++ [.brk
      { offset := -(step : Int), before := if value.wantsSemicolon then ";" else "",
        behind := "\x7d", otherwise := otherwise }])

/-- An expression in its own box, as the beginning of a chain, and as the body of an arm. -/
structure Printed where
  alone : Docs
  chained : Docs
  arm : Docs

namespace Printed

/-- An expression, given its own box and how it begins a chain. An arm puts braces around it if it
does not fit on its line. -/
def both (value : Expr) (alone chained : Docs) : Printed :=
  ⟨alone, chained, bracedIfDivided value alone (if value.needsComma then "," else "")⟩

def whole (value : Expr) (docs : Docs) : Printed := both value docs (outdented docs)

def link (value : Expr) (chain : Docs) : Printed := both value (indented chain) chain

end Printed

/-- Whether the body of a closure gets braces if it does not fit on its line. -/
def Expr.isOpenBody (value : Expr) : Bool :=
  match value with
  | .cases _ _ | .call _ _ => false
  | value => !value.isBlocklike

def closureLead (moves : Bool) : String := if moves then "move " else ""

def closureInputs (inputs : List Docs) (last : Docs) : Docs :=
  indented (word "|" ++ (if inputs.isEmpty then [] else zero) ++ (withLast inputs).flatMap (fun (input, isLast) =>
    input ++ if isLast then [] else word "," ++ space) ++ last)

def structFields (fields : List Docs) (rest : Docs) : Docs :=
  dedent (spaceIfMore
    ++ (withLast fields).flatMap (fun (field, isLast) => field ++ commaOrSpace (isLast && rest.isEmpty))
    ++ rest)

def structWidth : Nat := 34

mutual

/-- An expression, printed with knowledge of whether it begins a line. -/
def Expr.print (beginsLine : Bool) : Expr → Printed
  | e@(.literal text) => .whole e (word text)
  | e@(.path p) => .whole e (p.doc true)
  | e@(.unary operator operand) => .whole e (word operator ++ (operand.print false).alone)
  | e@(.reference mutable operand) =>
    .whole e (word (if mutable then "&mut " else "&") ++ (operand.print false).alone)
  | e@(.binary operator left right) =>
    .whole e (filledIndented (filledOutdented (left.print false).alone ++ space
      ++ word (operator ++ " ") ++ (right.print false).alone))
  | e@(.assign left right) =>
    .whole e (filled ((left.print false).alone ++ word " = " ++ never ++ (right.print false).alone))
  | e@(.cast operand type) =>
    .whole e (filledIndented (filledOutdented (operand.print false).alone ++ space ++ word "as "
      ++ type.doc))
  | e@(.range lower upper closed) =>
    .whole e (Expr.optionalDoc [] lower ++ word (if closed then "..=" else "..")
      ++ Expr.optionalDoc [] upper)
  | e@(.call function arguments) =>
    let tail := word "(" ++ argumentsDoc (arguments.all Expr.isBlocklike) (Expr.docs arguments)
      ++ word ")"
    .both e ((function.print beginsLine).alone ++ tail) ((function.print false).chained ++ tail)
  | e@(.method receiver name types arguments) =>
    let head := (receiver.print beginsLine).chained ++ linkBreak beginsLine receiver
      ++ word ("." ++ name) ++ turbofishDoc types
    let call := word "(" ++ argumentsDoc (arguments.all Expr.isBlocklike) (Expr.docs arguments)
      ++ word ")"
    .both e
      (indented (head
        ++ if beginsLine && receiver.isShortName step then outdented call else flush call))
      (head ++ flush call)
  | e@(.field receiver name) =>
    .link e ((receiver.print beginsLine).chained ++ linkBreak beginsLine receiver
      ++ word ("." ++ name))
  | e@(.index receiver position) =>
    let tail := word "[" ++ (position.print false).alone ++ word "]"
    .both e ((receiver.print beginsLine).alone ++ tail)
      ((receiver.print beginsLine).chained ++ tail)
  | e@(.question operand) => .link e ((operand.print beginsLine).chained ++ word "?")
  | e@(.await operand) =>
    .link e ((operand.print beginsLine).chained ++ linkBreak beginsLine operand ++ word ".await")
  | e@(.paren inner) => .whole e (word "(" ++ (inner.print false).alone ++ word ")")
  | e@(.tuple elements) => .whole e (tupleDoc (Expr.docs elements))
  | e@(.array elements) =>
    .whole e (if elements.isEmpty then word "[]"
      else if elements.all Expr.isPlain then
        indented (word "[" ++ zero ++ filled ((withLast (Expr.docs elements)).flatMap
            fun (element, isLast) => element ++ if isLast then [] else word "," ++ space)
          ++ dedent (comma true) ++ word "]")
      else word "[" ++ commaList (Expr.docs elements) ++ word "]")
  | e@(.replicate element count) =>
    .whole e (word "[" ++ (element.print false).alone ++ word "; " ++ (count.print false).alone
      ++ word "]")
  | e@(.struct p fields rest) =>
    let inner := filledOutdented (p.doc true) ++ word " \x7b"
      ++ structFields (Expr.fieldDocs fields) (match rest with
        | none => []
        | some value => word ".." ++ (value.print false).alone ++ space)
    .whole e (indented (if structWidth < widthAll inner then inner ++ [.strut] else inner)
      ++ word "\x7d")
  | .block label body =>
    let docs := labelDoc label ++ indented (smallBlockDoc body.isEmpty (Stmt.docs true body))
    ⟨docs, outdented docs, Stmt.armDoc label body⟩
  | e@(.unsafeBlock body) =>
    .whole e (word "unsafe " ++ indented (smallBlockDoc body.isEmpty (Stmt.docs true body)))
  | e@(.asyncBlock moves body) =>
    .whole e (word (if moves then "async move " else "async ")
      ++ indented (smallBlockDoc body.isEmpty (Stmt.docs true body)))
  | e@(.closure moves inputs none body) =>
    let doc := (body.print false).alone
    .whole e (filled (word (closureLead moves)
      ++ closureInputs (Pat.docs inputs) (word "|" ++ dedent space) ++ never
      ++ if body.isOpenBody then bracedIfDivided body doc "" else doc))
  | e@(.closure moves inputs (some output) body) =>
    .whole e (filled (word (closureLead moves)
      ++ closureInputs (Pat.docs inputs) ((if inputs.isEmpty then [] else dedent (comma true))
        ++ word "|")
      ++ word " -> " ++ output.doc ++ blank ++ never ++ (body.print false).alone))
  | e@(.ifElse condition body otherwise) =>
    let head := word "if " ++ outdented (conditionDoc condition (condition.print false).alone)
    .whole e (indented (head ++ match otherwise with
      | none =>
        if body.isEmpty then word "\x7b\x7d"
        else word "\x7b" ++ dedent (hard ++ Stmt.docs false body) ++ word "\x7d"
      | some other => smallBlockDoc body.isEmpty (Stmt.docs true body) ++ other.elseDoc))
  | e@(.attempt pattern value) =>
    .whole e (filled (word "let " ++ filled pattern.doc ++ word " = " ++ never
      ++ filled (value.print false).alone))
  | e@(.cases value arms) =>
    .whole e (filled (word "match " ++ conditionDoc value (value.print false).alone
      ++ bracedDoc (Arm.docs arms)))
  | e@(.whileLoop label condition body) =>
    .whole e (labelDoc label ++ word "while "
      ++ conditionDoc condition (condition.print false).alone ++ bracedDoc (Stmt.docs false body))
  | e@(.forLoop label pattern range body) =>
    .whole e (filled (labelDoc label ++ word "for " ++ pattern.doc ++ word " in " ++ never
      ++ conditionDoc range (range.print false).alone ++ bracedDoc (Stmt.docs false body)))
  | e@(.loop label body) =>
    .whole e (labelDoc label ++ word "loop " ++ bracedDoc (Stmt.docs false body))
  | e@(.leave value) => .whole e (word "return" ++ Expr.optionalDoc blank value)
  | e@(.exit label value) => .whole e (jumpDoc "break" label ++ Expr.optionalDoc blank value)
  | e@(.again label) => .whole e (jumpDoc "continue" label)

def Expr.elseDoc : Expr → Docs
  | .ifElse condition body none =>
    word " else if " ++ outdented (conditionDoc condition (condition.print false).alone)
      ++ smallBlockDoc body.isEmpty (Stmt.docs true body)
  | .ifElse condition body (some other) =>
    word " else if " ++ outdented (conditionDoc condition (condition.print false).alone)
      ++ smallBlockDoc body.isEmpty (Stmt.docs true body) ++ other.elseDoc
  | .block _ body => word " else " ++ smallBlockDoc body.isEmpty (Stmt.docs true body)
  | _ => []

def Expr.docs : List Expr → List Docs
  | [] => []
  | value :: rest => (value.print false).alone :: Expr.docs rest

def Expr.optionalDoc (lead : Docs) : Option Expr → Docs
  | none => []
  | some value => lead ++ (value.print false).alone

def Expr.fieldDocs : List (String × Option Expr) → List Docs
  | [] => []
  | (name, none) :: rest => word name :: Expr.fieldDocs rest
  | (name, some value) :: rest =>
    (word name ++ word ": " ++ (value.print false).alone) :: Expr.fieldDocs rest

/-- A block as the body of an arm. One that is an expression alone gives way to it. -/
def Stmt.armDoc (label : Option String) : List Stmt → Docs
  | [] =>
    if label.isSome then labelDoc label ++ word "\x7b\x7d"
    else bracedIfDivided (.tuple []) (word "()") ","
  | first :: rest =>
    match label, first, rest with
    | none, .eval value false, [] => (value.print true).arm
    | label, first, rest =>
      labelDoc label ++ bracedDoc (first.doc false ++ Stmt.docs false rest)

def Arm.docs : List Arm → Docs
  | [] => []
  | .mk pattern guard body :: rest =>
    filled (pattern.doc ++ Expr.optionalDoc (word " if ") guard ++ word " => " ++ (body.print true).arm)
      ++ hard ++ Arm.docs rest

/-- A statement and its line end. Where it is the only one of its block, an expression may share the
line of the braces. -/
def Stmt.doc (small : Bool) : Stmt → Docs
  | .bind pattern none _ => filled (word "let " ++ pattern.doc ++ word ";") ++ hard
  | .bind pattern (some value) none =>
    filled (word "let " ++ pattern.doc ++ word " = " ++ never ++ (value.print false).alone
      ++ word ";") ++ hard
  | .bind pattern (some value) (some otherwise) =>
    filled (word "let " ++ pattern.doc ++ word " = " ++ never ++ (value.print false).alone ++ space
        ++ word "else ")
      ++ never ++ indented (smallBlockDoc otherwise.isEmpty (Stmt.docs true otherwise))
      ++ word ";" ++ hard
  | .eval value true =>
    filled ((value.print true).alone ++ word (if value.shedsSemicolon then "" else ";")) ++ hard
  | .eval value false =>
    if small then filled (value.print true).alone ++ space
    else filled ((value.print true).alone ++ word (if value.wantsSemicolon then ";" else "")) ++ hard
  | .empty => []

def Stmt.docs (small : Bool) : List Stmt → Docs
  | [] => []
  | first :: rest => first.doc (small && rest.isEmpty) ++ Stmt.docs false rest

end

end ProtoBind.Source
