/-!
# Documents

A document is a text in which places for line ends are marked. Boxes group such places: where a box
does not fit on its line, a consistent box ends the line at all of them, an inconsistent one only
where the next piece would not fit.
-/

set_option autoImplicit false

namespace ProtoBind.Layout

inductive Breaking where
  | consistent
  | inconsistent
  deriving DecidableEq, Repr

structure Break where
  /-- The blanks that stand here if the line does not end. -/
  blanks : Nat := 0
  /-- How much further in than its box the next line begins. -/
  offset : Int := 0
  /-- What stands before the line end. -/
  before : String := ""
  /-- What stands behind the line end. -/
  behind : String := ""
  /-- What stands here if the line does not end. -/
  otherwise : String := ""
  /-- Whether the line never ends here. -/
  never : Bool := false
  /-- Whether the place counts only if something follows it in its box. -/
  needsMore : Bool := false
  deriving DecidableEq, Repr

/-- The width that fits on no line. -/
def infinite : Nat := 65535

/-- The columns that a box is further in than what is around it. -/
def step : Nat := 4

inductive Doc where
  | text (content : String)
  | brk (place : Break)
  | box (breaking : Breaking) (offset : Int) (body : List Doc)
  /-- Nothing, but too wide for any line. -/
  | strut
  deriving Repr

instance : Inhabited Doc := ⟨.text ""⟩

abbrev Docs := List Doc

def word (content : String) : Docs := if content = "" then [] else [.text content]

def blank : Docs := [.text " "]

def space : Docs := [.brk { blanks := 1 }]

def zero : Docs := [.brk {}]

def hard : Docs := [.brk { blanks := infinite }]

/-- A break that is always taken, unless nothing follows it in its box. -/
def hardIfMore : Docs := [.brk { blanks := infinite, needsMore := true }]

def spaceIfMore : Docs := [.brk { blanks := 1, needsMore := true }]

/-- A break that is never taken and so only ends what is measured before it. -/
def never : Docs := [.brk { never := true }]

/-- What separates an element from the next one: a comma and a blank; behind the last one a comma only
where the line ends. -/
def comma (isLast : Bool) : Docs :=
  if isLast then [.brk { before := "," }] else word "," ++ space

/-- What separates an element from the next one or from a closing brace. -/
def commaOrSpace (isLast : Bool) : Docs :=
  if isLast then [.brk { blanks := 1, before := "," }] else word "," ++ space

/-- The documents with the offset of the break at their end changed. -/
def shiftLast (offset : Int) : Docs → Docs
  | [] => []
  | [.brk place] => [.brk { place with offset := place.offset + offset }]
  | doc :: rest => doc :: shiftLast offset rest

/-- The documents with what follows the break at their end moved out again. -/
def dedent (docs : Docs) : Docs := shiftLast (-(step : Int)) docs

/-- The documents without the break at their end if it needs more. What is measured before it still ends
where it stood. -/
def dropIdle : Docs → Docs
  | [] => []
  | [.brk place] => if place.needsMore then never else [.brk place]
  | doc :: rest => doc :: dropIdle rest

def box (breaking : Breaking) (offset : Int) (body : Docs) : Docs :=
  match body with
  | [.brk _] => []
  | _ => [.box breaking offset (dropIdle body)]

def flush (body : Docs) : Docs := box .consistent 0 body

def indented (body : Docs) : Docs := box .consistent step body

def outdented (body : Docs) : Docs := box .consistent (-(step : Int)) body

def filled (body : Docs) : Docs := box .inconsistent 0 body

def filledIndented (body : Docs) : Docs := box .inconsistent step body

def filledOutdented (body : Docs) : Docs := box .inconsistent (-(step : Int)) body

def withLast {α : Type} : List α → List (α × Bool)
  | [] => []
  | [a] => [(a, true)]
  | a :: rest => (a, false) :: withLast rest

/-- Elements with commas, each on a line of its own where they do not fit on one. -/
def commaList (elements : List Docs) : Docs :=
  indented (zero ++ dedent ((withLast elements).flatMap fun (element, isLast) =>
    element ++ comma isLast))

mutual

def Doc.width : Doc → Nat
  | .text content => content.utf8ByteSize
  | .brk place => place.blanks
  | .box _ _ body => widthAll body
  | .strut => infinite

def widthAll : List Doc → Nat
  | [] => 0
  | doc :: rest => doc.width + widthAll rest

end

end ProtoBind.Layout
