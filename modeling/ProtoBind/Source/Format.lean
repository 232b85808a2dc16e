import ProtoBind.Layout.Render
import ProtoBind.Source.Grammar
import ProtoBind.Source.Imports
import ProtoBind.Source.Parser.Item
import ProtoBind.Source.Printer.Item

/-!
# Formatted source

The grammar that emitted texts are written in, and the form that they are kept in.
-/

set_option autoImplicit false

namespace ProtoBind.Source

def SourceFile.render (file : SourceFile) : String := Layout.render file.doc

def emittedGrammar : Grammar Attribute Item where
  parse := SourceFile.parse
  print := SourceFile.render
  useVisibility := Item.useVisibility
  tokenText := Item.tokenText

def format (name text : String) : Except Error String := emittedGrammar.format name text

theorem format_of_parse {name text : String} {file again : SourceFile} (h : SourceFile.parse text = some file)
    (hAgain : SourceFile.parse (SourceFile.render (emittedGrammar.sortImports file)) = some again) :
    format name text = .ok (SourceFile.render (emittedGrammar.sortImports file)) := by
  have hText : emittedGrammar.parse text = some file := h
  have hSecond : emittedGrammar.parse (emittedGrammar.print (emittedGrammar.sortImports file)) = some again := hAgain
  rw [format, Grammar.format, hText]
  dsimp only
  rw [hSecond]
  rfl

end ProtoBind.Source
