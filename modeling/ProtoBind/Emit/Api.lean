import ProtoBind.Emit.Field
import ProtoBind.Emit.Header
import ProtoBind.Http.Rule

/-!
# API files

The services of a schema file: a trait with a function for each method, and a function that registers
a route for each method. `ApiFile.ofScope` finds what is declared, `ApiFile.lines` writes it down.
-/

set_option autoImplicit false

namespace ProtoBind.Emit

open Naming Text Http

inductive Payload where
  /-- The well-known message without fields. -/
  | empty
  | named (reference : Reference)
  deriving DecidableEq, Repr

namespace Payload

def text (names : LocalNames) : Payload → String
  | .empty => "router::Empty"
  | .named reference => reference.text names

def packages : Payload → List String
  | .empty => []
  | .named reference => reference.packages

end Payload

structure Endpoint where
  name : String
  input : Payload
  output : Payload
  /-- Whether the input has fields to fill. -/
  binds : Bool
  route : Route
  directives : Directives
  wrapsResponse : Bool
  comment : Option String

structure Service where
  /-- The name in the case of types. -/
  name : String
  /-- The name in the case of functions. -/
  stem : String
  comment : Option String
  deprecated : Bool
  endpoints : List Endpoint

/-- What the API of a schema file declares, the schema file, and the local names that all of it
needs. -/
structure ApiFile where
  file : FileNode
  names : LocalNames
  services : List Service

def emptyTypeName : String := ".google.protobuf.Empty"

namespace Scope

/-- What a method takes or gives, besides whether that has fields. -/
def payload (scope : Scope) (typeName : String) : Except Error (Payload × Bool) :=
  if typeName = emptyTypeName then .ok (.empty, false)
  else
    match scope.index.get typeName with
    | .error e => .error e
    | .ok (.message file i) =>
      let hasFields := (scope.graph.message? file i).any fun message => !message.decl.fields.isEmpty
      .ok (.named (scope.referTo (.message file i)), hasFields)
    | .ok s => .ok (.named (scope.referTo s), true)

def routeOf (scope : Scope) (rules : Rules) (service : ServiceDecl) (method : MethodDecl) :
    Except Error (Rule × Route) :=
  let name := methodName scope.file.decl.package service.name method.name
  match rules.get? name with
  | none => .error (.httpMappingNotFound name)
  | some rule =>
    match rule.route? with
    | none => .error (.httpMappingNotFound name)
    | some route => .ok (rule, route)

/-- A method with its route, where some method names are used up before. -/
def endpoint (scope : Scope) (rules : Rules) (service : ServiceDecl) (path : SourcePath)
    (used : List String) (method : MethodDecl) : Except Error Endpoint := do
  let (rule, route) ← scope.routeOf rules service method
  let comment := scope.file.comment? path
  let (input, binds) ← scope.payload method.inputType
  let (output, _) ← scope.payload method.outputType
  let name := withSuffix "_" (used ++ keywords) (snake method.name)
  return {
    name, input, output, binds, route, directives := .ofComment? comment,
    wrapsResponse := rule.wrapsResponse, comment }

def endpoints (scope : Scope) (rules : Rules) (service : ServiceDecl) (path : SourcePath) (i : Nat)
    (used : List String) : List MethodDecl → Except Error (List Endpoint)
  | [] => .ok []
  | method :: rest => do
    let endpoint ← scope.endpoint rules service (path.method i) used method
    let rest ← scope.endpoints rules service path (i + 1) (endpoint.name :: used) rest
    return endpoint :: rest

def services (scope : Scope) (rules : Rules) (i : Nat) :
    List ServiceDecl → Except Error (List Service)
  | [] => .ok []
  | service :: rest => do
    let endpoints ← scope.endpoints rules service (SourcePath.service i) 0 [] service.methods
    let rest ← scope.services rules (i + 1) rest
    let comment := scope.file.comment? (SourcePath.service i)
    return {
      name := pascal service.name, stem := snake service.name, comment,
      deprecated := service.deprecated, endpoints } :: rest

end Scope

namespace Endpoint

def packages (e : Endpoint) : List String := e.input.packages ++ e.output.packages

def usesBinding (e : Endpoint) : Bool := e.binds && e.route.verb == .post

def handlerLines (names : LocalNames) (e : Endpoint) : List Line :=
  docLines e.comment
    ++ block ("fn " ++ e.name ++ "(")
      [code "&self,", code "ctx: router::Context,", code ("input: &" ++ e.input.text names ++ ","),
        code ("output: &mut " ++ e.output.text names ++ ",")]
      ") -> impl Future<Output = Result<(), router::Error>> + Send;"

def bindCall (e : Endpoint) : String :=
  match e.route.verb, e.directives.binding with
  | .get, _ => "ctx.bind_query(&mut input)"
  | .post, .json => "ctx.bind_body_with(&mut input, binding::Json).await"
  | .post, binding => "ctx.bind_with(&mut input, binding::" ++ binding.typeName ++ ").await"

/-- A call whose failure is reported to the client. -/
def reported (errorCode : Int) (call : String) : List Line :=
  block ("if let Err(err) = " ++ call ++ " \x7b")
    [code ("return router::error(&ctx, " ++ toString errorCode ++ ", err);")] "\x7d"

/-- A call whose failure is passed over. -/
def ignored (call : String) : List Line := [code ("let _ = " ++ call ++ ";")]

def bindLines (errorCode : Int) (e : Endpoint) : List Line :=
  if !e.binds then []
  else if e.directives.bindcheck then reported errorCode e.bindCall
  else ignored e.bindCall

def answerLines (errorCode : Int) (e : Endpoint) : List Line :=
  let call := "h." ++ e.name ++ "(ctx.clone(), &input, &mut output).await"
  if e.wrapsResponse then reported errorCode call ++ [code "router::json(&ctx, &output)"]
  else ignored call ++ [code "ctx.finish()"]

/-- What happens on a request: the input is filled, the handler called, the answer written. -/
def dispatchLines (names : LocalNames) (errorCode : Int) (e : Endpoint) : List Line :=
  code "let h = Arc::clone(&h);"
    :: block "async move \x7b"
      ([code ((if e.binds then "let mut input = " else "let input = ") ++ e.input.text names
          ++ "::default();"),
        code ("let mut output = " ++ e.output.text names ++ "::default();")]
        ++ e.bindLines errorCode ++ e.answerLines errorCode)
      "\x7d"

def closure : String := "move |ctx: router::Context| \x7b"

def verbName : Verb → String
  | .get => "Get"
  | .post => "Post"

def verbStem : Verb → String
  | .get => "get"
  | .post => "post"

def handleCall (e : Endpoint) (chain : String) : String :=
  "g.handle(router::Method::" ++ verbName e.route.verb ++ ", " ++ Quoted.encode e.route.path ++ ", "
    ++ chain ++ ", " ++ closure

/-- The registration of a route. Where middleware is missing, the route reports that. -/
def routeLines (names : LocalNames) (errorCode : Int) (e : Endpoint) : List Line :=
  let dispatch := e.dispatchLines names errorCode
  match e.directives.middleware with
  | [] =>
    block ("g." ++ verbStem e.route.verb ++ "(" ++ Quoted.encode e.route.path ++ ", " ++ closure)
      dispatch "\x7d);"
  | middleware =>
    block ("match g.middlewares(&[" ++ ", ".intercalate (middleware.map Quoted.encode) ++ "]) \x7b")
      (block "router::Resolved::Chain(chain) => \x7b"
          (block (e.handleCall "chain") dispatch "\x7d);") "\x7d"
        ++ block "router::Resolved::Missing(name) => \x7b"
          (block (e.handleCall "router::Chain::default()")
            [code "let err = router::Error::missing_middleware(&name);",
              code ("async move \x7b router::error(&ctx, " ++ toString errorCode ++ ", err) \x7d")]
            "\x7d);")
          "\x7d")
      "\x7d"

end Endpoint

namespace Service

def traitLines (names : LocalNames) (s : Service) : List Line :=
  documentation s.comment s.deprecated
    ++ block ("pub trait " ++ s.name ++ "Handler: Send + Sync + 'static \x7b")
      (s.endpoints.flatMap (Endpoint.handlerLines names)) "\x7d"
    ++ [.blank]

/-- The name and the bound of the function that registers the routes. -/
def registerHead (s : Service) : String :=
  "pub fn register_" ++ s.stem ++ "_handler<H: " ++ s.name ++ "Handler>"

def registerLines (names : LocalNames) (errorCode : Int) (s : Service) : List Line :=
  .doc 0 ("Registers the routes of `" ++ s.name ++ "` on `g`, dispatching requests to `h`.")
    :: (if s.endpoints.isEmpty then
        [code (s.registerHead ++ "(_g: &mut router::Engine, _h: H) \x7b\x7d")]
      else
        block (s.registerHead ++ "(g: &mut router::Engine, h: H) \x7b")
          (code "let h = Arc::new(h);" :: s.endpoints.flatMap fun e =>
            block "\x7b" (code "let h = Arc::clone(&h);" :: e.routeLines names errorCode) "\x7d")
          "\x7d")
    ++ [.blank]

end Service

namespace ApiFile

def packages (services : List Service) : List String :=
  services.flatMap fun service => service.endpoints.flatMap Endpoint.packages

def ofScope (scope : Scope) (rules : Rules) : Except Error ApiFile :=
  match scope.services rules 0 scope.file.decl.services with
  | .error e => .error e
  | .ok services => .ok
    { file := scope.file, names := .ofPaths (packages services), services }

def endpoints (api : ApiFile) : List Endpoint := api.services.flatMap (·.endpoints)

def uses (params : Parameters) (api : ApiFile) : List Line :=
  (if api.services.isEmpty then [] else [code ("use " ++ params.routerPath ++ ";")])
    ++ (if api.endpoints.any Endpoint.usesBinding then
        [code ("use " ++ params.routerPath ++ "::binding;")] else [])
    ++ (if api.endpoints.isEmpty then []
      else [code "use std::future::Future;", code "use std::sync::Arc;"])
    ++ params.packageUses api.names

def lines (config : Config) (api : ApiFile) : List Line :=
  header api.file ++ api.uses config.params ++ [.blank]
    ++ api.services.flatMap fun service =>
      service.traitLines api.names ++ service.registerLines api.names config.errorCode

end ApiFile

end ProtoBind.Emit
