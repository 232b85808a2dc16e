import ProtoBind.Http.Rule
import ProtoBind.Pool.Check
import ProtoBind.Schema.Decode
import ProtoBind.Schema.Encode

/-!
# The rules in a request

The rule of a method is an extension of its options. Which number it has, and of which type it is, the
request itself says: `Rules.ofRequest` links the files of the request and looks the extension up.
-/

set_option autoImplicit false

namespace ProtoBind

open Wire Http

namespace Pool

def ruleExtension? (pool : Pool) : Option (Scoped FieldDecl) :=
  pool.extensions.find? fun x => (extensionDefinition x).name == "google.api.http"

/-- The bytes that the options of a method hold at the number of the rule. There are none unless the
options hold one message there. -/
def ruleBytes? (pool : Pool) (number : Nat) (method : MethodDecl) : Option Bytes := do
  let type := "google.protobuf.MethodOptions"
  let options ← pool.options? type method.options
  let field ← (pool.types type).find? (·.number == number)
  if field.repeated || (options.values number).isEmpty then none
  else match field.kind with
    | .message name | .group name =>
      some (encodeFields pool.types depthLimit name (options.message number))
    | _ => none

def ruleOf (pool : Pool) (number : Nat) (scope : String) (method : MethodDecl) :
    Except Error (Option (String × Rule)) :=
  match pool.ruleBytes? number method with
  | none => .ok none
  | some bytes =>
    match Rule.decode bytes with
    | some rule => .ok (some (scopedName scope method.name, rule))
    | none => .error .decodeRequest

def rules (pool : Pool) : Except Error Rules :=
  match pool.ruleExtension? with
  | none => .ok {}
  | some x => do
    let entries ← (pool.services.flatMap fun s =>
      s.decl.methods.map fun method => (scopedName s.scope s.decl.name, method)).mapM
        fun (scope, method) => pool.ruleOf x.decl.number.toNat scope method
    return .ofList (entries.filterMap id)

end Pool

def decodeFiles (contents : List Bytes) : Except Error (List FileDecl) :=
  match FileSet.decode (FileSet.encode contents) with
  | some files => .ok files
  | none => .error .decodeDescriptors

def Http.Rules.ofRequest (bytes : Bytes) : Except Error Rules := do
  let files ← decodeFiles (← Request.rawFiles bytes)
  let pool ← Pool.link files
  pool.rules

end ProtoBind
