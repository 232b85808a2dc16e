import ProtoBind.Layout.Doc
import ProtoBind.Source.Ty

/-!
# Printing types and paths
-/

set_option autoImplicit false

namespace ProtoBind.Source

open Layout

def tupleDoc (elements : List Docs) : Docs :=
  match elements with
  | [] => word "()"
  | [only] => word "(" ++ indented (zero ++ only ++ word "," ++ dedent zero) ++ word ")"
  | elements => word "(" ++ commaList elements ++ word ")"

def joined (separator : String) : List Docs → Docs
  | [] => []
  | [part] => part
  | part :: rest => part ++ word separator ++ joined separator rest

def Argument.isLifetime : Argument → Bool
  | .lifetime _ => true
  | _ => false

def referenceLead (lifetime : Option String) (mutable : Bool) : String :=
  "&" ++ (match lifetime with
    | some name => name ++ " "
    | none => "") ++ (if mutable then "mut " else "")

def angledDoc (elements : List (Argument × Docs)) : Docs :=
  if elements.isEmpty then []
  else
    let lifetimes := elements.filter fun (a, _) => a.isLifetime
    let others := elements.filter fun (a, _) => !a.isLifetime
    word "<" ++ commaList ((lifetimes ++ others).map Prod.snd) ++ word ">"

mutual

def Ty.doc : Ty → Docs
  | .path path => path.doc false
  | .reference lifetime mutable target => word (referenceLead lifetime mutable) ++ target.doc
  | .pointer mutable target => word (if mutable then "*mut " else "*const ") ++ target.doc
  | .tuple elements => tupleDoc (Ty.docs elements)
  | .slice element => word "[" ++ element.doc ++ word "]"
  | .array element length => word "[" ++ element.doc ++ word "; " ++ word length ++ word "]"
  | .impl bounds => word "impl " ++ joined " + " (Bound.docs bounds)
  | .dyn bounds => word "dyn " ++ joined " + " (Bound.docs bounds)
  | .paren inner => word "(" ++ inner.doc ++ word ")"
  | .never => word "!"
  | .inferred => word "_"

def Ty.docs : List Ty → List Docs
  | [] => []
  | ty :: rest => ty.doc :: Ty.docs rest

/-- A path. In an expression the arguments of its names are marked as such. -/
def Path.doc (inExpr : Bool) : Path → Docs
  | .mk rooted segments => word (if rooted then "::" else "") ++ Segment.allDoc inExpr segments

def Segment.allDoc (inExpr : Bool) : List Segment → Docs
  | [] => []
  | [.mk name arguments] => word name ++ arguments.doc inExpr
  | .mk name arguments :: rest =>
    word name ++ arguments.doc inExpr ++ word "::" ++ Segment.allDoc inExpr rest

def Arguments.doc (inExpr : Bool) : Arguments → Docs
  | .none => []
  | .angled elements =>
    word (if inExpr && !elements.isEmpty then "::" else "")
      ++ angledDoc (elements.zip (Argument.docs elements))
  | .called inputs output =>
    indented (word "(" ++ zero ++ dedent ((withLast (Ty.docs inputs)).flatMap fun (input, isLast) =>
        input ++ comma isLast) ++ word ")")
      ++ Ty.outputDoc output

def Argument.doc : Argument → Docs
  | .lifetime name => word name
  | .type type => type.doc
  | .literal text => word text
  | .equality name type => word name ++ word " = " ++ type.doc

def Argument.docs : List Argument → List Docs
  | [] => []
  | argument :: rest => argument.doc :: Argument.docs rest

def Bound.doc : Bound → Docs
  | .lifetime name => word name
  | .trait maybe path => word (if maybe then "?" else "") ++ path.doc false

def Bound.docs : List Bound → List Docs
  | [] => []
  | bound :: rest => bound.doc :: Bound.docs rest

def Ty.outputDoc : Option Ty → Docs
  | none => []
  | some output => word " -> " ++ output.doc

end

def turbofishDoc (elements : List Argument) : Docs :=
  if elements.isEmpty then []
  else word "::" ++ angledDoc (elements.zip (Argument.docs elements))

end ProtoBind.Source
