import ProtoBind.Naming.Case
import ProtoBind.Table
import ProtoBind.Text.Blank

/-!
# Directives

A comment may hold a line such as `@tag middleware:auth,quota bindcheck:false binding:form`. The first
marker with a blank behind it and something behind the blanks counts; from there the rest of that line
is a list of tokens `key` or `key:value`, of which the last with a key wins.
-/

set_option autoImplicit false

namespace ProtoBind

open Text Naming

inductive Binding where
  | json
  | form
  | query
  | formPost
  | formMultipart
  deriving DecidableEq, Repr, Inhabited

namespace Binding

/-- The binding a directive asks for; what is not known means `json`. -/
def ofText (value : String) : Binding :=
  let value := lower value
  if value = "form" then .form
  else if value = "query" then .query
  else if value = "formpost" then .formPost
  else if value = "formmultipart" then .formMultipart
  else .json

def typeName : Binding → String
  | .json => "Json"
  | .form => "Form"
  | .query => "Query"
  | .formPost => "FormPost"
  | .formMultipart => "FormMultipart"

end Binding

/-- The line of the first usable marker: the text from the first character behind its blanks up to
the end of that line. -/
def directiveLine : List Char → Option (List Char)
  | [] => none
  | '@' :: 't' :: 'a' :: 'g' :: after =>
    let line := trimStart after
    if line.length < after.length ∧ line ≠ [] then
      some (dropEndWhile (· == '\r') (line.takeWhile (· != '\n')))
    else directiveLine after
  | _ :: cs => directiveLine cs

/-- A token as key and value: the value stands between the first and the second colon. -/
def directiveEntry (token : List Char) : String × String :=
  match splitOnce ':' token with
  | some (key, rest) => (String.ofList key, String.ofList (rest.takeWhile (· != ':')))
  | none => (String.ofList token, "")

def directiveEntries (line : List Char) : List (String × String) :=
  (((splitOn ' ' line).map trim).filter (· ≠ [])).map directiveEntry

structure Directives where
  /-- The names of the middleware of the route, in order. -/
  middleware : List String := []
  /-- Whether failures to bind are reported to the client. -/
  bindcheck : Bool := true
  binding : Binding := .json
  /-- Whether a field is left out of the output while it holds its default value. -/
  omitempty : Bool := true
  /-- All keys with their values; a key alone has the empty value. -/
  raw : Table String := .empty

namespace Directives

def get? (d : Directives) (key : String) : Option String := d.raw.get? key

def ofTable (raw : Table String) : Directives where
  middleware :=
    match raw.get? "middleware" with
    | some names => ((splitOn ',' names.toList).filter (· ≠ [])).map String.ofList
    | none => []
  bindcheck :=
    match raw.get? "bindcheck" with
    | some value => lower value != "false"
    | none => true
  binding :=
    match raw.get? "binding" with
    | some value => .ofText value
    | none => .json
  omitempty :=
    match raw.get? "omitempty" with
    | some value => lower value == "true"
    | none => true
  raw := raw

def parse (comment : String) : Directives :=
  match directiveLine comment.toList with
  | none => {}
  | some line => ofTable (.ofList (directiveEntries line))

def ofComment? (comment : Option String) : Directives :=
  match comment with
  | none => {}
  | some comment => parse comment

end Directives

end ProtoBind
