import ProtoBind.Layout.Doc

/-!
# Rendered documents

`measure` tells of every box and of every break how much has to fit on the line for it to stay whole:
all of the box, or what stands up to the next break, and what follows up to the next break around it.
`render` then fills lines from left to right.
-/

set_option autoImplicit false

namespace ProtoBind.Layout

/-- A document with what has to fit on the line for each box and each break to stay whole. -/
inductive Cell where
  | text (content : String)
  | brk (place : Break) (size : Nat)
  | box (breaking : Breaking) (offset : Int) (size : Nat) (body : List Cell)
  deriving Repr

instance : Inhabited Cell := ⟨.text ""⟩

/-- Measured cells, their width on one line, and the width from their start up to the first break that
stands between them or, behind them, in a box around them. -/
structure Measured where
  cells : List Cell
  width : Nat
  reach : Nat

mutual

def Doc.measure (doc : Doc) (rest : Measured) : Measured :=
  match doc with
  | .text content =>
    { cells := .text content :: rest.cells, width := content.utf8ByteSize + rest.width,
      reach := content.utf8ByteSize + rest.reach }
  | .brk place =>
    { cells := .brk place (place.blanks + rest.reach) :: rest.cells,
      width := place.blanks + rest.width, reach := 0 }
  | .box breaking offset body =>
    let inner := measureAll body rest.reach
    { cells := .box breaking offset (inner.width + rest.reach) inner.cells :: rest.cells,
      width := inner.width + rest.width, reach := inner.width + rest.reach }
  | .strut =>
    { cells := rest.cells, width := infinite + rest.width, reach := infinite + rest.reach }

/-- Measures a sequence with so much behind it up to the next break. -/
def measureAll (docs : List Doc) (follow : Nat) : Measured :=
  match docs with
  | [] => { cells := [], width := 0, reach := follow }
  | doc :: rest => doc.measure (measureAll rest follow)

end

def margin : Int := 89

/-- The width that a line has however far in it begins. -/
def leastSpace : Int := 60

structure Sheet where
  /-- The pieces written, the last one first. -/
  pieces : List String := []
  /-- How much fits on the rest of the line. -/
  space : Int := margin
  /-- Blanks that are written as soon as something follows them. -/
  pending : Nat := 0

namespace Sheet

/-- Writes the pending blanks. -/
def settle (sheet : Sheet) : Sheet :=
  if sheet.pending = 0 then sheet
  else { sheet with pieces := "".pushn ' ' sheet.pending :: sheet.pieces, pending := 0 }

/-- Writes a text that does not count for the line, unless it is empty. -/
def mark (sheet : Sheet) (content : String) : Sheet :=
  if content = "" then sheet
  else { sheet.settle with pieces := content :: sheet.settle.pieces }

def write (sheet : Sheet) (content : String) : Sheet :=
  { sheet.settle with
    pieces := content :: sheet.settle.pieces,
    space := sheet.space - (content.utf8ByteSize : Int) }

def pass (sheet : Sheet) (place : Break) : Sheet :=
  let sheet :=
    { sheet with
      pending := sheet.pending + place.blanks, space := sheet.space - (place.blanks : Int) }
  if place.otherwise = "" then sheet
  else
    { sheet with
      pieces := place.otherwise :: sheet.pieces,
      space := sheet.space - (place.otherwise.utf8ByteSize : Int) }

def newline (sheet : Sheet) (indent : Int) (place : Break) : Sheet :=
  let start := indent + place.offset
  let sheet := sheet.mark place.before
  let sheet :=
    { pieces := "\n" :: sheet.pieces, pending := start.toNat,
      space := max (margin - start) leastSpace }
  if place.behind = "" then sheet else sheet.write place.behind

def toText (sheet : Sheet) : String := String.join sheet.pieces.reverse

end Sheet

abbrev Frame := Option Breaking

def staysWhole (frame : Frame) (place : Break) (size : Nat) (space : Int) : Bool :=
  place.never || match frame with
    | none => true
    | some .consistent => false
    | some .inconsistent => decide ((size : Int) ≤ space)

mutual

def Cell.render (frame : Frame) (indent : Int) (cell : Cell) (sheet : Sheet) : Sheet :=
  match cell with
  | .text content => sheet.write content
  | .brk place size =>
    if staysWhole frame place size sheet.space then sheet.pass place else sheet.newline indent place
  | .box breaking offset size body =>
    if sheet.space < (size : Int) then renderAll (some breaking) (indent + offset) body sheet
    else renderAll none indent body sheet

def renderAll (frame : Frame) (indent : Int) (cells : List Cell) (sheet : Sheet) : Sheet :=
  match cells with
  | [] => sheet
  | cell :: rest => renderAll frame indent rest (cell.render frame indent sheet)

end

def render (docs : Docs) : String :=
  (renderAll (some .inconsistent) 0 (measureAll docs 0).cells {}).toText

end ProtoBind.Layout
