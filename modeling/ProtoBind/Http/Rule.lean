import ProtoBind.Table
import ProtoBind.Schema.Decl
import ProtoBind.Wire.Message

/-!
# Rules of methods

How a method is reached over HTTP: the pattern of its rule, and whether its answer is wrapped.
-/

set_option autoImplicit false

namespace ProtoBind.Http

open Wire

inductive Pattern where
  | get (path : String)
  | put (path : String)
  | post (path : String)
  | delete (path : String)
  | patch (path : String)
  | custom (kind path : String)
  deriving DecidableEq, Repr

inductive Verb where
  | get
  | post
  deriving DecidableEq, Repr

structure Route where
  verb : Verb
  path : String
  deriving DecidableEq, Repr

structure Rule where
  responseBody : String := ""
  pattern : Option Pattern := none
  deriving DecidableEq, Repr

namespace Rule

/-- The route of a rule, if its verb is one that routes can have. -/
def route? (rule : Rule) : Option Route :=
  match rule.pattern with
  | some (.get path) => some ⟨.get, path⟩
  | some (.post path) => some ⟨.post, path⟩
  | _ => none

/-- Whether the answer of the handler is written as an envelope. -/
def wrapsResponse (rule : Rule) : Bool := rule.responseBody == "" || rule.responseBody == "json"

/-- The fields of a rule that count; the others are passed over. -/
def types : Types
  | "HttpRule" =>
    [⟨2, .string, false, false, false, some 0⟩, ⟨3, .string, false, false, false, some 0⟩,
      ⟨4, .string, false, false, false, some 0⟩, ⟨5, .string, false, false, false, some 0⟩,
      ⟨6, .string, false, false, false, some 0⟩,
      ⟨8, .message "CustomHttpPattern", false, false, false, some 0⟩,
      { number := 12, kind := .string }]
  | "CustomHttpPattern" => [{ number := 1, kind := .string }, { number := 2, kind := .string }]
  | _ => []

/-- The values of the pattern that stand at last: the parts of a custom pattern run back to the last
other one. -/
def patternFields (fields : Fields) : Fields :=
  dropCleared (types "HttpRule") (fields.filter fun (number, _) =>
    oneofOf (types "HttpRule") number == some 0)

/-- The pattern in the fields of a rule: the one that comes last. -/
def patternOfFields (fields : Fields) : Option Pattern :=
  let set := patternFields fields
  match set.getLast? with
  | some (2, .string path) => some (.get path)
  | some (3, .string path) => some (.put path)
  | some (4, .string path) => some (.post path)
  | some (5, .string path) => some (.delete path)
  | some (6, .string path) => some (.patch path)
  | some (8, _) =>
    let custom := set.message 8
    some (.custom (custom.string 1) (custom.string 2))
  | _ => none

def decode (bytes : Bytes) : Option Rule :=
  (decodeMessage types 1 "HttpRule" bytes).map fun fields =>
    { responseBody := fields.string 12, pattern := patternOfFields fields }

end Rule

structure Rules where
  table : Table Rule := .empty

namespace Rules

instance : Inhabited Rules := ⟨{}⟩

def get? (rules : Rules) (method : String) : Option Rule :=
  match method.toList with
  | '.' :: name => rules.table.get? (String.ofList name)
  | _ => rules.table.get? method

def insert (rules : Rules) (method : String) (rule : Rule) : Rules := ⟨rules.table.insert method rule⟩

def ofList (entries : List (String × Rule)) : Rules := ⟨.ofList entries⟩

end Rules

def methodName (package service method : String) : String :=
  if package = "" then service ++ "." ++ method else package ++ "." ++ service ++ "." ++ method

def ruleNumber : Nat := 72295728

/-- The bytes that the options of a method hold as its rule: all parts, one behind the other. -/
def ruleBytes? (method : MethodDecl) : Option Bytes :=
  match scan method.options with
  | none => none
  | some records =>
    let parts := records.filterMap fun
      | (number, .delimited content) => if number = ruleNumber then some content else none
      | _ => none
    if parts.isEmpty then none else some parts.flatten

/-- The rules that the options of all methods hold, read by the number of the option alone. A method
with bytes that are no rule has none. -/
def Rules.ofFiles (files : List FileDecl) : Rules :=
  .ofList (files.flatMap fun file =>
    file.services.flatMap fun service =>
      service.methods.filterMap fun method =>
        ((ruleBytes? method).bind Rule.decode).map fun rule =>
          (methodName file.package service.name method.name, rule))

end ProtoBind.Http
