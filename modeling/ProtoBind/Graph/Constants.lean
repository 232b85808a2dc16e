import ProtoBind.Graph.Basic
import ProtoBind.Naming.Case
import ProtoBind.Naming.Fresh

/-!
# Constant names

Every enum value gets a constant that no earlier value of its file has, such as `ORDER_PENDING` for
the value `PENDING` of `Order.State`.
-/

set_option autoImplicit false

namespace ProtoBind

open Naming

/-- What the constants of an enum begin with: the message around it, or the enum itself where there is
none. -/
def EnumNode.constantPrefix (e : EnumNode) : String :=
  let name :=
    match e.parent with
    | none => pascal e.decl.name
    | some _ => typePathName e.typeName.dropLast
  screamingSnake (String.ofList (name.toList.reverse.dropWhile (· == '_')).reverse)

/-- The constants of values, besides the names that are used up with them. -/
def nameConstants (stem : String) (used : List String) : List EnumValueDecl → List String × List String
  | [] => ([], used)
  | value :: rest =>
    let name := withSuffix "_" used (stem ++ "_" ++ upper value.name)
    let (names, used) := nameConstants stem (name :: used) rest
    (name :: names, used)

/-- The enums with their constants, where some names are used up before. -/
def nameEnums (used : List String) : List EnumNode → List EnumNode
  | [] => []
  | e :: rest =>
    let (constants, used) := nameConstants e.constantPrefix used e.decl.values
    { e with constants } :: nameEnums used rest

def Graph.withConstants (g : Graph) : Graph :=
  { g with files := g.files.map fun file => { file with enums := nameEnums [] file.enums } }

end ProtoBind
