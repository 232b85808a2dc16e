import ProtoBind.Source.Pat
import ProtoBind.Source.Printer.Ty

/-!
# Printing patterns
-/

set_option autoImplicit false

namespace ProtoBind.Source

open Layout

def Pat.isPlain : Pat → Bool
  | .literal _ | .wild => true
  | _ => false

def casesDoc : List Docs → Docs
  | [] => []
  | first :: rest => first ++ rest.flatMap fun case => space ++ word "| " ++ case

mutual

def Pat.doc : Pat → Docs
  | .wild => word "_"
  | .dots => word ".."
  | .bind byRef mutable name inner =>
    word (if byRef then "ref " else "") ++ word (if mutable then "mut " else "") ++ word name
      ++ Pat.innerDoc inner
  | .literal text => word text
  | .range lower upper closed =>
    word lower ++ word (if closed then "..=" else "..") ++ word upper
  | .path p => p.doc true
  | .tupleStruct p elements =>
    p.doc true ++ word "(" ++ commaList (Pat.docs elements) ++ word ")"
  | .struct p fields more =>
    indented (p.doc true ++ word " \x7b" ++ dedent (spaceIfMore
        ++ (withLast (Pat.fieldDocs fields)).flatMap (fun (field, isLast) =>
          field ++ commaOrSpace (isLast && !more))
        ++ (if more then word ".." ++ space else [])))
      ++ word "\x7d"
  | .tuple elements => tupleDoc (Pat.docs elements)
  | .slice elements => word "[" ++ commaList (Pat.docs elements) ++ word "]"
  | .reference mutable target => word (if mutable then "&mut " else "&") ++ target.doc
  | .either cases =>
    box (if cases.all Pat.isPlain then .inconsistent else .consistent) 0 (casesDoc (Pat.docs cases))
  | .paren inner => word "(" ++ inner.doc ++ word ")"
  | .typed inner type => inner.doc ++ word ": " ++ type.doc

def Pat.docs : List Pat → List Docs
  | [] => []
  | pat :: rest => pat.doc :: Pat.docs rest

def Pat.innerDoc : Option Pat → Docs
  | none => []
  | some inner => word " @ " ++ inner.doc

def Pat.fieldDocs : List (String × Option Pat) → List Docs
  | [] => []
  | (name, none) :: rest => word name :: Pat.fieldDocs rest
  | (name, some inner) :: rest => (word name ++ word ": " ++ inner.doc) :: Pat.fieldDocs rest

end

end ProtoBind.Source
