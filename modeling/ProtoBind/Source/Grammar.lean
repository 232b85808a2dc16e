import ProtoBind.Error
import ProtoBind.Source.Item
import ProtoBind.Text.Lines

/-!
# Grammars

`Grammar.format` reads a source text, puts its imports in order and prints it anew. It asks little of the
language that the text is written in: how a file is read and printed, which items are of use and how their
tokens are spelled.
-/

set_option autoImplicit false

namespace ProtoBind.Source

open Text

structure Grammar (α ι : Type) where
  parse : String → Option (FileOf α ι)
  print : FileOf α ι → String
  /-- The visibility of an item of use; other items have none here. -/
  useVisibility : ι → Option Visibility
  /-- The tokens of an item of use, spelled out. -/
  tokenText : ι → String

namespace Grammar

variable {α ι : Type} (g : Grammar α ι)

def isPrivateUse (item : ι) : Bool :=
  match g.useVisibility item with
  | some .inherited => true
  | _ => false

/-- The private items of use at the start of a list. -/
def leadingUses (items : List ι) : List ι := items.takeWhile g.isPrivateUse

def insertUse (item : ι) : List ι → List ι
  | [] => [item]
  | other :: rest =>
    if g.tokenText item ≤ g.tokenText other then item :: other :: rest else other :: insertUse item rest

/-- The items in the order of their tokens, equal ones in the order they had. -/
def sortUses : List ι → List ι
  | [] => []
  | item :: rest => g.insertUse item (sortUses rest)

/-- The items without those that follow one of the same tokens. -/
def dropRepeated : List ι → List ι
  | [] => []
  | item :: rest =>
    match dropRepeated rest with
    | [] => [item]
    | other :: more => if g.tokenText item = g.tokenText other then item :: more else item :: other :: more

/-- The file with the private items of use at its start in the order of their tokens, each of them once. -/
def sortImports (file : FileOf α ι) : FileOf α ι :=
  { file with
    items := g.dropRepeated (g.sortUses (g.leadingUses file.items)) ++ file.items.dropWhile g.isPrivateUse }

/-- A source text in the one form that it is kept in. The name of its file appears in errors. -/
def format (name text : String) : Except Error String :=
  match g.parse text with
  | none => .error (.badSource name (numberedListing text))
  | some file =>
    let formatted := g.print (g.sortImports file)
    match g.parse formatted with
    | none => .error (.reformat name)
    | some _ => .ok formatted

end Grammar

end ProtoBind.Source
