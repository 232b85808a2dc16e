import ProtoBind.Source.Item

/-!
# Tokens of imports

Items of use as they are written: the tokens of their attributes, paths and trees.
-/

set_option autoImplicit false

namespace ProtoBind.Source

def pathMark : List Token := [.mark ':' true, .mark ':' false]

def Path.plainTokens : Path → List Token
  | .mk rooted segments =>
    (if rooted then pathMark else [])
      ++ (List.intersperse pathMark (segments.map fun | .mk name _ => [.word name])).flatten

def Attribute.tokens (a : Attribute) : List Token :=
  [.mark '#' false, .group .bracket (match a with
    | .path p => p.plainTokens
    | .list p delimiter inner => p.plainTokens ++ [.group delimiter inner]
    | .value p text => p.plainTokens ++ [.mark '=' false, .literal text])]

mutual

def UseTree.tokens : UseTree → List Token
  | .path n tree => .word n :: pathMark ++ tree.tokens
  | .name n => [.word n]
  | .rename n other => [.word n, .word "as", .word other]
  | .glob => [.mark '*' false]
  | .group trees ended => [.group .brace (UseTree.groupTokens ended trees)]

def UseTree.groupTokens (ended : Bool) : List UseTree → List Token
  | [] => []
  | [last] => last.tokens ++ if ended then [.mark ',' false] else []
  | tree :: rest => tree.tokens ++ [.mark ',' false] ++ UseTree.groupTokens ended rest

end

def UseItem.tokens (item : UseItem) : List Token :=
  item.attributes.flatMap Attribute.tokens ++ [.word "use"] ++ (if item.rooted then pathMark else [])
    ++ item.tree.tokens ++ [.mark ';' false]

def UseItem.tokenText (item : UseItem) : String := spellAll item.tokens

namespace Item

def useVisibility : Item → Option Visibility
  | .use item => some item.visibility
  | _ => none

/-- The tokens of an item of use, spelled out. Nothing asks for those of other items. -/
def tokenText : Item → String
  | .use item => item.tokenText
  | _ => ""

end Item

end ProtoBind.Source
