import ProtoBind.Source.Item
import ProtoBind.Source.Lexer
import ProtoBind.Source.Printer.Expr
import ProtoBind.Text.Blank
import ProtoBind.Text.Quoted

/-!
# Printing items

`SourceFile.doc` lays a whole source file out.
-/

set_option autoImplicit false

namespace ProtoBind.Source

open Layout Text

def literalValue? (text : String) : Option (List Char) :=
  match text.toList with
  | '\x22' :: cs => (Quoted.read .plain cs).map Prod.fst
  | 'r' :: cs =>
    let signs := (cs.takeWhile (· == '#')).length
    let content := cs.drop (signs + 1)
    (dropRaw signs content).map fun after =>
      content.take (content.length - after.length - 1 - signs)
  | _ => none

def Attribute.textOf? (name : String) : Attribute → Option (List Char)
  | .value p text => if p.ident? = some name then literalValue? text else none
  | _ => none

/-- Whether all comments in a text that begins so many levels deep are closed, and none else. -/
def closesComments : Nat → List Char → Bool
  | depth, [] => depth == 0
  | depth, '/' :: '*' :: cs => closesComments (depth + 1) cs
  | depth + 1, '*' :: '/' :: cs => closesComments depth cs
  | 0, '*' :: '/' :: _ => false
  | depth, _ :: cs => closesComments depth cs

def fitsBlockComment (cs : List Char) : Bool := closesComments 0 cs && cs.getLast? != some '/'

def trimLineEnds (cs : List Char) : List Char :=
  match (splitOn '\n' cs).reverse with
  | [] => []
  | last :: before =>
    before.reverse.flatMap (fun line => dropEndWhile (· == ' ') line ++ ['\n']) ++ last

/-- A comment on one line, or in a block, if the text of an attribute can be written so. -/
def commentDoc? (line blockStart : String) (barredLine barredBlock : List Char) (text : List Char) :
    Option Docs :=
  if !text.contains '\n' && !(text.head?.any barredLine.contains) then
    some (word line ++ word (String.ofList (dropEndWhile (· == ' ') text)) ++ hard)
  else if text.contains '\n' && fitsBlockComment text && !(text.head?.any barredBlock.contains) then
    some (word blockStart ++ word (String.ofList (trimLineEnds text)) ++ word "*/" ++ hard)
  else none

mutual

/-- The tokens of an attribute. `spaced` tells whether a blank stands between two words at a place where
the line may end, `afterWord` whether a word was printed last. -/
def Token.attributeDoc (spaced afterWord isLast : Bool) : Token → Docs
  | .word name => attributeGap spaced afterWord ++ word name
  | .literal text => attributeGap spaced afterWord ++ word text
  | .mark c _ =>
    if c = ',' then
      if isLast then comma true else word "," ++ if spaced then space else blank
    else
      (if afterWord && c == '=' then blank else []) ++ word c.toString
        ++ if c = '=' then blank else []
  | .group .parenthesis inner =>
    word "(" ++ indented (dedent (zero ++ attributeDocs true false inner
      ++ if endsInComma inner then [] else zero)) ++ word ")"
  | .group .brace inner => word "\x7b" ++ attributeDocs true false inner ++ word "\x7d"
  | .group .bracket inner => word "[" ++ attributeDocs true false inner ++ word "]"

def attributeDocs (spaced afterWord : Bool) : List Token → Docs
  | [] => []
  | token :: rest =>
    token.attributeDoc spaced afterWord rest.isEmpty ++ attributeDocs spaced token.isWordlike rest

def attributeGap (spaced afterWord : Bool) : Docs :=
  if afterWord then if spaced then space else blank else []

def endsInComma : List Token → Bool
  | [] => false
  | [.mark c _] => c == ','
  | _ :: rest => endsInComma rest

def Token.isWordlike : Token → Bool
  | .word _ | .literal _ => true
  | _ => false

end

def Attribute.metaDoc : Attribute → Docs
  | .path p => p.doc false
  | .list p delimiter tokens =>
    p.doc false ++ Token.attributeDoc false false true (.group delimiter tokens)
  | .value p text => p.doc false ++ word " = " ++ word text

def Attribute.doc (inner : Bool) (a : Attribute) : Docs :=
  let comment :=
    match a.textOf? "doc" with
    | some text =>
      if inner then commentDoc? "//!" "/*!" [] [] text
      else commentDoc? "///" "/**" ['/'] ['*', '/'] text
    | none =>
      match a.textOf? "comment" with
      | some text => commentDoc? "//" "/*" [] ['*', '!'] text
      | none => none
  match comment with
  | some doc => doc
  | none => word (if inner then "#![" else "#[") ++ a.metaDoc ++ word "]" ++ space

def attributesDoc (attributes : List Attribute) : Docs := attributes.flatMap (Attribute.doc false)

def Path.isScope (path : Path) : Bool :=
  path.ident?.any fun name => ["self", "super", "crate"].contains name

def Visibility.doc : Visibility → Docs
  | .inherited => []
  | .everyone => word "pub "
  | .within path =>
    word (if path.isScope then "pub(" else "pub(in ") ++ path.doc false ++ word ") "

def UseTree.endsInGroup : UseTree → Bool
  | .path _ tree => tree.endsInGroup
  | .group _ _ => true
  | _ => false

def UseTree.isSelf : UseTree → Bool
  | .name n => n == "self"
  | _ => false

mutual

def UseTree.doc : UseTree → Docs
  | .path n tree => word (n ++ "::") ++ tree.doc
  | .name n => word n
  | .rename n other => word (n ++ " as " ++ other)
  | .glob => word "*"
  | .group [] _ => word "\x7b\x7d"
  | .group [only] _ =>
    if only.isSelf then word "\x7bself\x7d" else only.doc
  | .group (first :: second :: rest) _ =>
    word "\x7b" ++ indented (zero ++ filled (UseTree.docs (first :: second :: rest))
      ++ dedent (comma true)) ++ word "\x7d"

def UseTree.docs : List UseTree → Docs
  | [] => []
  | [last] => last.doc
  | tree :: rest =>
    tree.doc ++ word "," ++ (if tree.endsInGroup then hard else space) ++ UseTree.docs rest

end

def UseItem.doc (item : UseItem) : Docs :=
  attributesDoc item.attributes ++ item.visibility.doc ++ word "use "
    ++ word (if item.rooted then "::" else "") ++ item.tree.doc ++ word ";" ++ hard

def boundsDoc (bounds : List Docs) : Docs :=
  match bounds with
  | [] => []
  | first :: rest => word ": " ++ first ++ rest.flatMap fun bound => space ++ word "+ " ++ bound

def supertraitsDoc (bounds : List Docs) : Docs :=
  if bounds.isEmpty then [] else word ": " ++ joined " + " bounds

def Parameter.doc : Parameter → Docs
  | .lifetime name bounds => word name ++ supertraitsDoc (bounds.map word)
  | .type name bounds default =>
    word name ++ filledIndented (boundsDoc (Bound.docs bounds) ++ match default with
      | none => []
      | some t => space ++ word "= " ++ t.doc)
  | .const name t => word ("const " ++ name ++ ": ") ++ t.doc

def Parameter.isLifetime : Parameter → Bool
  | .lifetime _ _ => true
  | _ => false

def parametersDoc (parameters : List Parameter) : Docs :=
  if parameters.isEmpty then []
  else
    let ordered := parameters.filter Parameter.isLifetime
      ++ parameters.filter fun p => !p.isLifetime
    word "<" ++ flush (zero ++ dedent ((withLast ordered).flatMap fun (p, isLast) =>
      p.doc ++ comma isLast)) ++ word ">"

def FieldItem.doc (field : FieldItem) : Docs :=
  attributesDoc field.attributes ++ field.visibility.doc
    ++ (match field.name with
      | some name => word (name ++ ": ")
      | none => [])
    ++ field.type.doc

def namedFieldsDoc (fields : List FieldItem) : Docs :=
  hardIfMore ++ fields.flatMap fun field => field.doc ++ word "," ++ hard

def unnamedFieldsDoc (fields : List FieldItem) : Docs :=
  word "(" ++ dedent (zero ++ (withLast fields).flatMap fun (field, isLast) =>
    field.doc ++ comma isLast) ++ word ")"

def Variant.doc (variant : Variant) : Docs :=
  attributesDoc variant.attributes ++ word variant.name
    ++ (match variant.fields with
      | .named fields =>
        word " \x7b" ++ indented (dedent (space ++ (withLast fields).flatMap fun (field, isLast) =>
          field.doc ++ commaOrSpace isLast)) ++ word "\x7d"
      | .unnamed fields => indented (unnamedFieldsDoc fields)
      | .none => [])
    ++ Expr.optionalDoc (word " = ") variant.value

def Receiver.doc (receiver : Receiver) : Docs :=
  word (match receiver.reference with
      | none => ""
      | some none => "&"
      | some (some lifetime) => "&" ++ lifetime ++ " ")
    ++ word (if receiver.mutable then "mut self" else "self")
    ++ (match receiver.type with
      | none => []
      | some type => word ": " ++ type.doc)

def Input.doc : Input → Docs
  | .receiver r => r.doc
  | .typed pattern type => pattern.doc ++ word ": " ++ type.doc

def Signature.doc (signature : Signature) : Docs :=
  signature.qualifiers.flatMap (fun qualifier => word (qualifier ++ " "))
    ++ word ("fn " ++ signature.name) ++ parametersDoc signature.parameters ++ word "(" ++ never
    ++ flush (zero ++ dedent ((withLast signature.inputs).flatMap fun (input, isLast) =>
      input.doc ++ comma isLast))
    ++ word ")" ++ outdented (Ty.outputDoc signature.output)

def Function.doc (function : Function) : Docs :=
  attributesDoc function.attributes
    ++ (match function.body with
      | none => indented (function.visibility.doc ++ function.signature.doc ++ word ";")
      | some body =>
        indented (function.visibility.doc ++ function.signature.doc ++ word " \x7b"
          ++ dedent (hardIfMore ++ Stmt.docs false body)) ++ word "\x7d")
    ++ hard

def Constant.doc (constant : Constant) : Docs :=
  attributesDoc constant.attributes
    ++ flush (constant.visibility.doc ++ word (constant.lead ++ constant.name ++ ": ")
      ++ constant.type.doc
      ++ (match constant.value with
        | none => []
        | some value => word " = " ++ never ++ (value.print false).alone)
      ++ word ";")
    ++ hard

def TypeAlias.doc (definition : TypeAlias) : Docs :=
  attributesDoc definition.attributes
    ++ indented (definition.visibility.doc ++ word ("type " ++ definition.name)
      ++ parametersDoc definition.parameters
      ++ boundsDoc (Bound.docs definition.bounds)
      ++ (match definition.type with
        | none => []
        | some type => word " = " ++ never ++ filledOutdented type.doc)
      ++ word ";")
    ++ hard

def Member.doc : Member → Docs
  | .function f => f.doc
  | .constant c => c.doc
  | .type definition => definition.doc

def bodyDoc (head inner : Docs) : Docs :=
  indented (head ++ word " \x7b" ++ dedent (hardIfMore ++ inner)) ++ word "\x7d" ++ hard

mutual

def Item.doc : Item → Docs
  | .use item => item.doc
  | .struct attributes visibility name parameters fields =>
    let head := visibility.doc ++ word ("struct " ++ name) ++ parametersDoc parameters
    attributesDoc attributes ++ match fields with
      | .named fields =>
        indented (head ++ word " \x7b" ++ dedent (namedFieldsDoc fields)) ++ word "\x7d" ++ hard
      | .unnamed fields => indented (head ++ unnamedFieldsDoc fields ++ word ";") ++ hard
      | .none => indented (head ++ word ";") ++ hard
  | .enum attributes visibility name parameters variants =>
    attributesDoc attributes
      ++ bodyDoc (visibility.doc ++ word ("enum " ++ name) ++ parametersDoc parameters)
        (variants.flatMap fun variant => variant.doc ++ word "," ++ hard)
  | .constant c => c.doc
  | .type definition => definition.doc
  | .function f => f.doc
  | .trait attributes visibility isUnsafe name parameters bounds members =>
    attributesDoc attributes
      ++ bodyDoc (visibility.doc ++ word (if isUnsafe then "unsafe trait " else "trait ") ++ word name
          ++ parametersDoc parameters ++ supertraitsDoc (Bound.docs bounds))
        (members.flatMap Member.doc)
  | .impl attributes isUnsafe parameters subject target members =>
    attributesDoc attributes
      ++ bodyDoc
        (filledOutdented (indented (word (if isUnsafe then "unsafe impl" else "impl")
            ++ parametersDoc parameters) ++ blank
          ++ (match subject with
            | none => []
            | some (negative, path) =>
              word (if negative then "!" else "") ++ path.doc false ++ space ++ word "for ")
          ++ target.doc))
        (members.flatMap Member.doc)
  | .module attributes visibility name none =>
    attributesDoc attributes
      ++ indented (visibility.doc ++ word ("mod " ++ name) ++ word ";") ++ hard
  | .module attributes visibility name (some items) =>
    attributesDoc attributes
      ++ bodyDoc (visibility.doc ++ word ("mod " ++ name)) (Item.docs items)
  | .externCrate attributes visibility name renamed =>
    attributesDoc attributes ++ visibility.doc ++ word ("extern crate " ++ name)
      ++ (match renamed with
        | none => []
        | some other => word (" as " ++ other))
      ++ word ";" ++ hard

def Item.docs : List Item → Docs
  | [] => []
  | item :: rest => item.doc ++ Item.docs rest

end

def SourceFile.doc (file : SourceFile) : Docs :=
  flush ((match file.shebang with
      | none => []
      | some line => word line ++ hard)
    ++ file.attributes.flatMap (Attribute.doc true) ++ Item.docs file.items)

end ProtoBind.Source
