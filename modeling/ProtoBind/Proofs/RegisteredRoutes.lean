import ProtoBind.Proofs.AcceptedMethods
import ProtoBind.Proofs.ApiTexts
import ProtoBind.Proofs.DistinctServices
import ProtoBind.Proofs.Sections

/-!
# Registered routes

What the lines of an API say of its methods: one function of the trait and one block of the registration for
each, in the same order. A block registers its route once, or once for each way in which the middleware can be
resolved, and calls the handler of its own method once.
-/

set_option autoImplicit false

namespace ProtoBind.Emit

open Naming Text Http

def registerHeads : List String := ["g."]

def registrations (lines : List Line) : List String := textsHeaded registerHeads lines

def callHeads : List String := ["let _ = h.", "if let Err(err) = h."]

def handlerCalls (lines : List Line) : List String := textsHeaded callHeads lines

/-- What a line begins with that makes the value that a handler takes. -/
def inputHeads : List String := ["let input = ", "let mut input = "]

def inputValues (lines : List Line) : List String := textsHeaded inputHeads lines

/-- What a line begins with that makes the value that a handler fills. -/
def outputHeads : List String := ["let mut output = "]

def outputValues (lines : List Line) : List String := textsHeaded outputHeads lines

/-- Lines that call the handler of a method, once and with values of the types of the method. -/
structure Dispatches (names : LocalNames) (e : Endpoint) (lines : List Line) : Prop where
  input : ∃ front ∈ inputHeads,
    inputValues lines = [front ++ e.input.text names ++ "::default();"]
  output : outputValues lines = ["let mut output = " ++ e.output.text names ++ "::default();"]
  call : ∃ front ∈ ["let _ = ", "if let Err(err) = "], ∃ back ∈ [";", " \x7b"],
    handlerCalls lines = [front ++ "h." ++ e.name ++ "(ctx.clone(), &input, &mut output).await" ++ back]

def chainedCall (route : Route) (chain : String) : String :=
  (match route.verb with
    | .get => "g.handle(router::Method::Get, "
    | .post => "g.handle(router::Method::Post, ")
    ++ Quoted.encode route.path ++ ", " ++ chain ++ ", move |ctx: router::Context| \x7b"

/-- Lines that resolve the middleware of a method, and register its route in either case: with a chain that calls
the handler, or without, to report what is missing. -/
structure Resolves (names : LocalNames) (e : Endpoint) (depth : Nat) (lines : List Line) : Prop where
  arms : ∃ arms chain missing,
    sections depth "match " lines = [("match g.middlewares(&["
      ++ ", ".intercalate (e.directives.middleware.map Quoted.encode) ++ "]) \x7b", arms)] ∧
    sections (depth + 1) "router::Resolved::" arms
      = [("router::Resolved::Chain(chain) => \x7b", chain), ("router::Resolved::Missing(name) => \x7b", missing)] ∧
    registrations chain = [chainedCall e.route "chain"] ∧ Dispatches names e chain ∧
    registrations missing = [chainedCall e.route "router::Chain::default()"] ∧ handlerCalls missing = []
  both : registrations lines = [chainedCall e.route "chain", chainedCall e.route "router::Chain::default()"]

structure RoutePrinted (names : LocalNames) (e : Endpoint) (depth : Nat) (lines : List Line) : Prop where
  dispatched : Dispatches names e lines
  direct : e.directives.middleware = [] → registrations lines = [(match e.route.verb with
      | .get => "g.get("
      | .post => "g.post(") ++ Quoted.encode e.route.path ++ ", move |ctx: router::Context| \x7b"]
  chained : e.directives.middleware ≠ [] → Resolves names e depth lines

structure HandlerPrinted (names : LocalNames) (e : Endpoint) (function : String × List Line) : Prop where
  opening : function.1 = "fn " ++ e.name ++ "("
  input : textsHeaded ["input: "] function.2 = ["input: &" ++ e.input.text names ++ ","]
  output : textsHeaded ["output: "] function.2 = ["output: &mut " ++ e.output.text names ++ ","]

structure TraitPrinted (names : LocalNames) (s : Service) (trait : String × List Line) : Prop where
  opening : trait.1 = "pub trait " ++ s.name ++ "Handler: Send + Sync + 'static \x7b"
  functions : List.Forall₂ (HandlerPrinted names) s.endpoints (sections 1 "fn " trait.2)

/-- The function that registers the routes of a service: one block for each method, in order, and no registration
besides. -/
structure RegisterPrinted (names : LocalNames) (s : Service) (register : String × List Line) : Prop where
  opening : Begins ("pub fn register_" ++ s.stem ++ "_handler<H: " ++ s.name ++ "Handler>(") register.1
  blocks : List.Forall₂ (fun e block => RoutePrinted names e 2 block.2) s.endpoints (sections 1 "\x7b" register.2)
  within : registrations register.2 = (sections 1 "\x7b" register.2).flatMap fun block => registrations block.2

structure RoutesPrinted (scope : Scope) (rules : Rules) (config : Config) (api : ApiFile) : Prop where
  offers : List.Forall₂ (fun (decl, i) s => scope.Offers rules i decl s) scope.file.decl.services.zipIdx api.services
  names : ∀ s ∈ api.services, (s.endpoints.map (·.name)).Nodup ∧ ∀ e ∈ s.endpoints, isKeyword e.name = false
  traits : List.Forall₂ (TraitPrinted api.names) api.services (sections 0 "pub trait " (api.lines config))
  registers : List.Forall₂ (RegisterPrinted api.names) api.services
    (sections 0 "pub fn register_" (api.lines config))
  within : registrations (api.lines config)
    = (sections 0 "pub fn register_" (api.lines config)).flatMap fun register => registrations register.2

/-! ### Deeper lines -/

section

variable {names : LocalNames} {e : Endpoint} {depth : Nat} {lines others : List Line}

theorem Dispatches.congr (h : Dispatches names e lines)
    (hSame : ∀ heads ∈ [inputHeads, outputHeads, callHeads], textsHeaded heads others = textsHeaded heads lines) :
    Dispatches names e others := by
  have hInput : inputValues others = inputValues lines := hSame _ (by simp)
  have hOutput : outputValues others = outputValues lines := hSame _ (by simp)
  have hCalls : handlerCalls others = handlerCalls lines := hSame _ (by simp)
  exact ⟨hInput ▸ h.input, hOutput ▸ h.output, hCalls ▸ h.call⟩

theorem Dispatches.nest (h : Dispatches names e lines) : Dispatches names e (nest lines) :=
  h.congr fun _ _ => textsHeaded_nest

theorem Resolves.nest (h : Resolves names e depth lines) : Resolves names e (depth + 1) (nest lines) := by
  obtain ⟨arms, chain, missing, hMatch, hArms, hChain, hDispatches, hMissing, hSilent⟩ := h.arms
  refine ⟨⟨Emit.nest arms, Emit.nest chain, Emit.nest missing, ?_, ?_, ?_, hDispatches.nest, ?_, ?_⟩, ?_⟩
  · rw [sections_nest, hMatch]
    rfl
  · rw [sections_nest, hArms]
    rfl
  · exact textsHeaded_nest.trans hChain
  · exact textsHeaded_nest.trans hMissing
  · exact textsHeaded_nest.trans hSilent
  · exact textsHeaded_nest.trans h.both

theorem RoutePrinted.nest (h : RoutePrinted names e depth lines) : RoutePrinted names e (depth + 1) (nest lines) :=
  ⟨h.dispatched.nest, fun hNone => textsHeaded_nest.trans (h.direct hNone), fun hSome => (h.chained hSome).nest⟩

end

/-! ### Heads of lines -/

namespace Endpoint

/-- What a line begins with in the handling of a request that neither calls the handler nor makes a value for it. -/
@[simp] def plainHeads : List String :=
  ["let h = Arc::clone(&h);", "async move \x7b", "let _ = ctx.bind_", "if let Err(err) = ctx.bind_",
    "return router::error(&ctx, ", "router::json(&ctx, &output)", "ctx.finish()", "\x7d"]

/-- What a line begins with around the handling of a request that registers no route. -/
@[simp] def frameHeads : List String :=
  ["let h = Arc::new(h);", "let h = Arc::clone(&h);", "match g.middlewares(&[",
    "router::Resolved::Chain(chain) => \x7b", "router::Resolved::Missing(name) => \x7b",
    "let err = router::Error::missing_middleware(&name);", "async move \x7b router::error(&ctx, ", "\x7d);", "\x7d",
    "\x7b"]

/-- The texts that a generated body is searched for, by what their lines begin with. -/
@[simp] def soughtHeads : List (List String) := [registerHeads, inputHeads, outputHeads, callHeads]

theorem apart_sought : soughtHeads.Pairwise Apart
    ∧ ∀ heads ∈ soughtHeads, Apart heads plainHeads ∧ Apart heads frameHeads := by
  decide +kernel

theorem apart_plain {heads : List String} (h : heads ∈ soughtHeads) : Apart heads plainHeads :=
  (apart_sought.2 heads h).1

theorem apart_frame {heads : List String} (h : heads ∈ soughtHeads) : Apart heads frameHeads :=
  (apart_sought.2 heads h).2

theorem apart_register {heads : List String} (h : heads ∈ [inputHeads, outputHeads, callHeads]) :
    Apart heads registerHeads :=
  ((List.pairwise_cons.mp apart_sought.1).1 heads h).symm

theorem apart_values : [inputHeads, outputHeads, callHeads].Pairwise Apart := apart_sought.1.tail

theorem apart_frame_register : Apart registerHeads frameHeads := apart_frame (by simp)

/-! ### Calls of handlers -/

variable {e : Endpoint} (names : LocalNames) (errorCode : Int)

theorem plain_return : Headed plainHeads ("return router::error(&ctx, " ++ toString errorCode ++ ", err);") :=
  ⟨"return router::error(&ctx, ", by simp, (begins_append _ _).append _⟩

theorem begins_bindCall (e : Endpoint) : Begins "ctx.bind_" e.bindCall := by
  have hQuery : Begins "ctx.bind_" "ctx.bind_query(" := by decide
  have hBody : Begins "ctx.bind_" "ctx.bind_body_with(&mut input, binding::" := by decide
  have hWhole : Begins "ctx.bind_" "ctx.bind_with(&mut input, binding::" := by decide
  rcases bindCall_cases e with ⟨-, hCall⟩ | ⟨-, hCall | hCall⟩
  · exact hQuery.trans hCall
  · exact hBody.trans hCall
  · exact hWhole.trans hCall

theorem plain_bindLines (e : Endpoint) : AllTexts (Headed plainHeads) (e.bindLines errorCode) := by
  have hReported : Headed plainHeads ("if let Err(err) = " ++ e.bindCall ++ " \x7b") :=
    ⟨"if let Err(err) = ctx.bind_", by simp, ((begins_bindCall e).behind "if let Err(err) = ").append _⟩
  have hIgnored : Headed plainHeads ("let _ = " ++ e.bindCall ++ ";") :=
    ⟨"let _ = ctx.bind_", by simp, ((begins_bindCall e).behind "let _ = ").append _⟩
  unfold bindLines
  split
  · exact allTexts_nil.mpr trivial
  · split
    · rw [AllTexts, codeTexts_reported, List.forall_mem_cons, List.forall_mem_cons, List.forall_mem_singleton]
      exact ⟨hReported, plain_return errorCode, headed_of_mem (by simp)⟩
    · rw [AllTexts, codeTexts_ignored, List.forall_mem_singleton]
      exact hIgnored

/-- The line that calls the handler, and plain ones behind it. -/
theorem exists_answerTexts (e : Endpoint) :
    ∃ front ∈ ["let _ = ", "if let Err(err) = "], ∃ back ∈ [";", " \x7b"], ∃ rest,
      codeTexts (e.answerLines errorCode)
        = (front ++ "h." ++ e.name ++ "(ctx.clone(), &input, &mut output).await" ++ back) :: rest ∧
      ∀ text ∈ rest, Headed plainHeads text := by
  have hCall : ∀ front back : String,
      front ++ ("h." ++ e.name ++ "(ctx.clone(), &input, &mut output).await") ++ back
        = front ++ "h." ++ e.name ++ "(ctx.clone(), &input, &mut output).await" ++ back := by
    intro front back
    simp only [String.append_assoc]
  unfold answerLines
  dsimp only
  split
  · refine ⟨"if let Err(err) = ", by simp, " \x7b", by simp,
      ["return router::error(&ctx, " ++ toString errorCode ++ ", err);", "\x7d", "router::json(&ctx, &output)"], ?_, ?_⟩
    · rw [codeTexts_append, codeTexts_reported, hCall]
      rfl
    · rw [List.forall_mem_cons, List.forall_mem_cons, List.forall_mem_singleton]
      exact ⟨plain_return errorCode, headed_of_mem (by simp), headed_of_mem (by simp)⟩
  · refine ⟨"let _ = ", by simp, ";", by simp, ["ctx.finish()"], ?_, ?_⟩
    · rw [codeTexts_append, codeTexts_ignored, hCall]
      rfl
    · rw [List.forall_mem_singleton]
      exact headed_of_mem (by simp)

/-- The lines that handle a request: its values, the call of the handler, and plain ones around them. -/
theorem exists_dispatchTexts (e : Endpoint) :
    ∃ opening ∈ inputHeads, ∃ front ∈ ["let _ = ", "if let Err(err) = "],
      ∃ back ∈ [";", " \x7b"], ∃ before after,
        codeTexts (e.dispatchLines names errorCode)
          = ["let h = Arc::clone(&h);", "async move \x7b", opening ++ e.input.text names ++ "::default();",
              "let mut output = " ++ e.output.text names ++ "::default();"] ++ before
            ++ (front ++ "h." ++ e.name ++ "(ctx.clone(), &input, &mut output).await" ++ back) :: after ∧
        (∀ text ∈ before, Headed plainHeads text) ∧ ∀ text ∈ after, Headed plainHeads text := by
  obtain ⟨front, hFront, back, hBack, rest, hTexts, hRest⟩ := exists_answerTexts errorCode e
  refine ⟨if e.binds then "let mut input = " else "let input = ", by split <;> decide, front, hFront, back, hBack,
    codeTexts (e.bindLines errorCode), rest ++ ["\x7d"], ?_, plain_bindLines errorCode e, ?_⟩
  · simp only [dispatchLines, codeTexts_code, codeTexts_block, codeTexts_append, hTexts,
      List.cons_append, List.nil_append, List.append_assoc]
  · rw [List.forall_mem_append, List.forall_mem_singleton]
    exact ⟨hRest, headed_of_mem (by simp)⟩

/-- With heads that no plain line has, only the values and the call of the handler remain. -/
theorem exists_textsHeaded (e : Endpoint) : ∃ opening ∈ inputHeads, ∃ front ∈ ["let _ = ", "if let Err(err) = "],
    ∃ back ∈ [";", " \x7b"], ∀ heads, Apart heads plainHeads → textsHeaded heads (e.dispatchLines names errorCode)
      = [opening ++ e.input.text names ++ "::default();"].filter (fun text => Headed heads text)
        ++ ["let mut output = " ++ e.output.text names ++ "::default();"].filter (fun text => Headed heads text)
        ++ [front ++ "h." ++ e.name ++ "(ctx.clone(), &input, &mut output).await" ++ back].filter
          fun text => Headed heads text := by
  obtain ⟨opening, hOpening, front, hFront, back, hBack, before, after, hTexts, hBefore, hAfter⟩ :=
    exists_dispatchTexts names errorCode e
  refine ⟨opening, hOpening, front, hFront, back, hBack, fun heads hApart => ?_⟩
  have hStart : ∀ text ∈ ["let h = Arc::clone(&h);", "async move \x7b"], Headed plainHeads text := by
    rw [List.forall_mem_cons, List.forall_mem_singleton]
    exact ⟨headed_of_mem (by simp), headed_of_mem (by simp)⟩
  have hSplit : ["let h = Arc::clone(&h);", "async move \x7b", opening ++ e.input.text names ++ "::default();",
      "let mut output = " ++ e.output.text names ++ "::default();"]
      = ["let h = Arc::clone(&h);", "async move \x7b"] ++ [opening ++ e.input.text names ++ "::default();"]
        ++ ["let mut output = " ++ e.output.text names ++ "::default();"] := rfl
  rw [textsHeaded, hTexts, hSplit, List.append_cons _ _ after]
  simp only [List.filter_append, filter_headed_of_apart hApart hStart, filter_headed_of_apart hApart hBefore,
    filter_headed_of_apart hApart hAfter, List.nil_append, List.append_nil]

theorem dispatches_dispatchLines (e : Endpoint) :
    Dispatches names e (e.dispatchLines names errorCode) ∧ registrations (e.dispatchLines names errorCode) = [] := by
  obtain ⟨opening, hOpening, front, hFront, back, hBack, hParts⟩ := exists_textsHeaded names errorCode e
  obtain ⟨⟨hValues, hInputCall⟩, hOutputCall⟩ :
      (Apart inputHeads outputHeads ∧ Apart inputHeads callHeads) ∧ Apart outputHeads callHeads := by
    simpa using apart_values
  have hInput : ∀ text ∈ [opening ++ e.input.text names ++ "::default();"], Headed inputHeads text := by
    rw [List.forall_mem_singleton]
    exact ⟨opening, hOpening, (begins_append _ _).append _⟩
  have hOutput : ∀ text ∈ ["let mut output = " ++ e.output.text names ++ "::default();"], Headed outputHeads text := by
    rw [List.forall_mem_singleton]
    exact ⟨_, List.mem_singleton_self _, (begins_append _ _).append _⟩
  have hCall : ∀ text ∈ [front ++ "h." ++ e.name ++ "(ctx.clone(), &input, &mut output).await" ++ back],
      Headed callHeads text := by
    have hHead : ∀ front ∈ ["let _ = ", "if let Err(err) = "], front ++ "h." ∈ callHeads := by decide
    rw [List.forall_mem_singleton]
    exact ⟨_, hHead front hFront, ((begins_append _ _).append _).append _⟩
  refine ⟨⟨⟨opening, hOpening, ?_⟩, ?_, ⟨front, hFront, back, hBack, ?_⟩⟩, ?_⟩
  · rw [inputValues, hParts _ (apart_plain (by simp)), filter_headed_of_headed hInput,
      filter_headed_of_apart hValues hOutput, filter_headed_of_apart hInputCall hCall]
    rfl
  · rw [outputValues, hParts _ (apart_plain (by simp)), filter_headed_of_apart hValues.symm hInput,
      filter_headed_of_headed hOutput, filter_headed_of_apart hOutputCall hCall]
    rfl
  · rw [handlerCalls, hParts _ (apart_plain (by simp)), filter_headed_of_apart hInputCall.symm hInput,
      filter_headed_of_apart hOutputCall.symm hOutput, filter_headed_of_headed hCall]
    rfl
  · rw [registrations, hParts _ (apart_plain (by simp)),
      filter_headed_of_apart (apart_register (by simp)).symm hInput,
      filter_headed_of_apart (apart_register (by simp)).symm hOutput,
      filter_headed_of_apart (apart_register (by simp)).symm hCall]
    rfl

/-! ### Routes -/

def directCall (e : Endpoint) : String :=
  "g." ++ verbStem e.route.verb ++ "(" ++ Quoted.encode e.route.path ++ ", " ++ closure

theorem headed_directCall (e : Endpoint) : Headed registerHeads e.directCall := by
  have hHead : Headed registerHeads "g." := headed_of_mem (List.mem_singleton_self _)
  unfold directCall
  exact ((((hHead.append _).append _).append _).append _).append _

theorem directCall_eq (e : Endpoint) : e.directCall = (match e.route.verb with
      | .get => "g.get("
      | .post => "g.post(") ++ Quoted.encode e.route.path ++ ", move |ctx: router::Context| \x7b" := by
  have hVerb : "g." ++ verbStem e.route.verb ++ "(" = (match e.route.verb with
      | .get => "g.get("
      | .post => "g.post(") := by
    cases e.route.verb <;> rfl
  have hClosure : ", move |ctx: router::Context| \x7b" = ", " ++ closure := rfl
  rw [directCall, hVerb, hClosure, ← String.append_assoc]

theorem headed_handleCall (e : Endpoint) (chain : String) : Headed registerHeads (e.handleCall chain) := by
  have hHead : Headed registerHeads "g.handle(router::Method::" := by decide
  unfold handleCall
  exact ((((((hHead.append _).append _).append _).append _).append _).append _).append _

theorem handleCall_eq (e : Endpoint) (chain : String) : e.handleCall chain = chainedCall e.route chain := by
  have hVerb : "g.handle(router::Method::" ++ verbName e.route.verb ++ ", " = (match e.route.verb with
      | .get => "g.handle(router::Method::Get, "
      | .post => "g.handle(router::Method::Post, ") := by
    cases e.route.verb <;> rfl
  have hClosure : ", move |ctx: router::Context| \x7b" = ", " ++ closure := rfl
  unfold handleCall chainedCall
  rw [hVerb, hClosure, ← String.append_assoc]

theorem headed_report :
    Headed frameHeads ("async move \x7b router::error(&ctx, " ++ toString errorCode ++ ", err) \x7d") :=
  ⟨"async move \x7b router::error(&ctx, ", by simp, (begins_append _ _).append _⟩

theorem headed_match (e : Endpoint) : Headed frameHeads
    ("match g.middlewares(&[" ++ ", ".intercalate (e.directives.middleware.map Quoted.encode) ++ "]) \x7b") :=
  ⟨"match g.middlewares(&[", by simp, (begins_append _ _).append _⟩

def missingLines (e : Endpoint) : List Line :=
  block (e.handleCall "router::Chain::default()") [code "let err = router::Error::missing_middleware(&name);",
    code ("async move \x7b router::error(&ctx, " ++ toString errorCode ++ ", err) \x7d")] "\x7d);"

/-- The lines that register a route with the middleware that was found. -/
def chainLines (e : Endpoint) : List Line := block (e.handleCall "chain") (e.dispatchLines names errorCode) "\x7d);"

def armLines (e : Endpoint) : List Line :=
  block "router::Resolved::Chain(chain) => \x7b" (e.chainLines names errorCode) "\x7d"
    ++ block "router::Resolved::Missing(name) => \x7b" (e.missingLines errorCode) "\x7d"

theorem routeLines_direct (h : e.directives.middleware = []) :
    e.routeLines names errorCode = block e.directCall (e.dispatchLines names errorCode) "\x7d);" := by
  unfold routeLines
  rw [h]
  rfl

theorem routeLines_chained (h : e.directives.middleware ≠ []) : e.routeLines names errorCode
    = block ("match g.middlewares(&[" ++ ", ".intercalate (e.directives.middleware.map Quoted.encode) ++ "]) \x7b")
      (e.armLines names errorCode) "\x7d" := by
  unfold routeLines
  dsimp only
  split
  · rename_i hNone
    exact absurd hNone h
  · rfl

section

variable {heads : List String} (hApart : Apart heads frameHeads)
include hApart

theorem textsHeaded_missingLines (e : Endpoint) : textsHeaded heads (e.missingLines errorCode)
    = textsHeaded heads [code (e.handleCall "router::Chain::default()")] := by
  have hError : Headed frameHeads "let err = router::Error::missing_middleware(&name);" := headed_of_mem (by simp)
  rw [missingLines, textsHeaded_block hApart (headed_of_mem (by simp)), textsHeaded_other hApart hError,
    textsHeaded_other hApart (headed_report errorCode), textsHeaded_nil, List.append_nil]

theorem textsHeaded_chainLines (e : Endpoint) : textsHeaded heads (e.chainLines names errorCode)
    = textsHeaded heads [code (e.handleCall "chain")] ++ textsHeaded heads (e.dispatchLines names errorCode) :=
  textsHeaded_block hApart (headed_of_mem (by simp))

theorem textsHeaded_armLines (e : Endpoint) : textsHeaded heads (e.armLines names errorCode)
    = textsHeaded heads (e.chainLines names errorCode) ++ textsHeaded heads (e.missingLines errorCode) := by
  rw [armLines, textsHeaded_append,
    textsHeaded_block_other hApart (headed_of_mem (by simp)) (headed_of_mem (by simp)),
    textsHeaded_block_other hApart (headed_of_mem (by simp)) (headed_of_mem (by simp))]

theorem textsHeaded_routeLines (e : Endpoint) : textsHeaded heads (e.routeLines names errorCode)
    = if e.directives.middleware = [] then
        textsHeaded heads [code e.directCall] ++ textsHeaded heads (e.dispatchLines names errorCode)
      else textsHeaded heads (e.armLines names errorCode) := by
  split
  · rename_i hNone
    rw [routeLines_direct names errorCode hNone, textsHeaded_block hApart (headed_of_mem (by simp))]
  · rename_i hSome
    rw [routeLines_chained names errorCode hSome,
      textsHeaded_block_other hApart (headed_match e) (headed_of_mem (by simp))]

end

/-! ### Registrations -/

theorem registrations_call {call : String} (h : Headed registerHeads call) : registrations [code call] = [call] :=
  textsHeaded_code h

theorem registrations_chainLines (e : Endpoint) :
    registrations (e.chainLines names errorCode) = [chainedCall e.route "chain"] := by
  rw [registrations, textsHeaded_chainLines names errorCode apart_frame_register, ← registrations, ← registrations,
    (dispatches_dispatchLines names errorCode e).2, registrations_call (headed_handleCall e _), handleCall_eq,
    List.append_nil]

theorem registrations_missingLines (e : Endpoint) :
    registrations (e.missingLines errorCode) = [chainedCall e.route "router::Chain::default()"] := by
  rw [registrations, textsHeaded_missingLines errorCode apart_frame_register, ← registrations,
    registrations_call (headed_handleCall e _), handleCall_eq]

theorem handlerCalls_missingLines (e : Endpoint) : handlerCalls (e.missingLines errorCode) = [] := by
  rw [handlerCalls, textsHeaded_missingLines errorCode (apart_frame (by simp))]
  exact textsHeaded_other (apart_register (by simp)) (headed_handleCall e _)

/-- The registration of a route adds no calls of handlers and no values to the handling of the request. -/
theorem textsHeaded_dispatch (e : Endpoint) : ∀ heads ∈ [inputHeads, outputHeads, callHeads],
    textsHeaded heads (e.chainLines names errorCode) = textsHeaded heads (e.dispatchLines names errorCode) ∧
      textsHeaded heads (e.routeLines names errorCode) = textsHeaded heads (e.dispatchLines names errorCode) := by
  intro heads hHeads
  have hFrame : Apart heads frameHeads := apart_frame (List.mem_cons_of_mem _ hHeads)
  have hCall : ∀ call, Headed registerHeads call → textsHeaded heads [code call] = [] :=
    fun call h => textsHeaded_other (apart_register hHeads) h
  have hChain : textsHeaded heads (e.chainLines names errorCode)
      = textsHeaded heads (e.dispatchLines names errorCode) := by
    rw [textsHeaded_chainLines names errorCode hFrame, hCall _ (headed_handleCall e _), List.nil_append]
  refine ⟨hChain, ?_⟩
  rw [textsHeaded_routeLines names errorCode hFrame, textsHeaded_armLines names errorCode hFrame, hChain,
    textsHeaded_missingLines errorCode hFrame, hCall _ (headed_directCall e), hCall _ (headed_handleCall e _),
    List.nil_append, List.append_nil, ite_self]

theorem dispatches_chainLines (e : Endpoint) : Dispatches names e (e.chainLines names errorCode) :=
  (dispatches_dispatchLines names errorCode e).1.congr fun heads hHeads =>
    (textsHeaded_dispatch names errorCode e heads hHeads).1

theorem dispatches_routeLines (e : Endpoint) : Dispatches names e (e.routeLines names errorCode) :=
  (dispatches_dispatchLines names errorCode e).1.congr fun heads hHeads =>
    (textsHeaded_dispatch names errorCode e heads hHeads).2

/-! ### Routes with middleware -/

theorem solid_reported (call : String) : Solid (reported errorCode call) := by
  simp [reported]

theorem solid_dispatchLines (e : Endpoint) : Solid (e.dispatchLines names errorCode) := by
  have hBind : Solid (e.bindLines errorCode) := by
    unfold bindLines
    split
    · exact solid_nil
    · split
      · exact solid_reported errorCode _
      · simp [ignored]
  have hAnswer : Solid (e.answerLines errorCode) := by
    unfold answerLines
    dsimp only
    split
    · simp [solid_reported]
    · simp [ignored]
  simp [dispatchLines, hBind, hAnswer]

theorem solid_armLines (e : Endpoint) : Solid (e.armLines names errorCode) := by
  simp [armLines, chainLines, missingLines, solid_dispatchLines]

theorem solid_routeLines (e : Endpoint) : Solid (e.routeLines names errorCode) := by
  by_cases hNone : e.directives.middleware = []
  · simp [routeLines_direct names errorCode hNone, solid_dispatchLines]
  · simp [routeLines_chained names errorCode hNone, solid_armLines]

theorem sections_armLines (e : Endpoint) : sections 0 "router::Resolved::" (e.armLines names errorCode)
    = [("router::Resolved::Chain(chain) => \x7b", nest (e.chainLines names errorCode)),
      ("router::Resolved::Missing(name) => \x7b", nest (e.missingLines errorCode))] := by
  have hChain : Solid (e.chainLines names errorCode) := by
    simp [chainLines, solid_dispatchLines]
  have hMissing : Solid (e.missingLines errorCode) := by
    simp [missingLines]
  rw [armLines, sections_append flush_block, sections_block (by decide) (by decide) hChain,
    sections_block (by decide) (by decide) hMissing]
  rfl

theorem resolves_routeLines (h : e.directives.middleware ≠ []) : Resolves names e 0 (e.routeLines names errorCode) := by
  have hOpening : Begins "match " ("match g.middlewares(&["
      ++ ", ".intercalate (e.directives.middleware.map Quoted.encode) ++ "]) \x7b") := by
    have hMatch : Begins "match " "match g.middlewares(&[" := by decide
    exact (hMatch.append _).append _
  have hChain := (dispatches_chainLines names errorCode e).nest.nest
  refine ⟨⟨nest (e.armLines names errorCode), nest (nest (e.chainLines names errorCode)),
    nest (nest (e.missingLines errorCode)), ?_, ?_, ?_, hChain, ?_, ?_⟩, ?_⟩
  · rw [routeLines_chained names errorCode h, sections_block hOpening (by decide) (solid_armLines names errorCode e)]
  · rw [sections_nest, sections_armLines]
    rfl
  · rw [registrations, textsHeaded_nest, textsHeaded_nest]
    exact registrations_chainLines names errorCode e
  · rw [registrations, textsHeaded_nest, textsHeaded_nest]
    exact registrations_missingLines errorCode e
  · rw [handlerCalls, textsHeaded_nest, textsHeaded_nest]
    exact handlerCalls_missingLines errorCode e
  · rw [registrations, textsHeaded_routeLines names errorCode apart_frame_register, if_neg h,
      textsHeaded_armLines names errorCode apart_frame_register]
    exact congrArg₂ (· ++ ·) (registrations_chainLines names errorCode e) (registrations_missingLines errorCode e)

theorem routePrinted_routeLines (e : Endpoint) : RoutePrinted names e 0 (e.routeLines names errorCode) := by
  refine ⟨dispatches_routeLines names errorCode e, fun hNone => ?_, resolves_routeLines names errorCode⟩
  rw [registrations, textsHeaded_routeLines names errorCode apart_frame_register, if_pos hNone, ← registrations,
    ← registrations, (dispatches_dispatchLines names errorCode e).2, registrations_call (headed_directCall e),
    List.append_nil, directCall_eq]

def blockLines (e : Endpoint) : List Line :=
  block "\x7b" (code "let h = Arc::clone(&h);" :: e.routeLines names errorCode) "\x7d"

theorem routePrinted_clone (e : Endpoint) :
    RoutePrinted names e 0 (code "let h = Arc::clone(&h);" :: e.routeLines names errorCode) := by
  have hRoute := routePrinted_routeLines names errorCode e
  have hOther : ∀ heads ∈ [registerHeads, inputHeads, outputHeads, callHeads],
      textsHeaded heads (code "let h = Arc::clone(&h);" :: e.routeLines names errorCode)
        = textsHeaded heads (e.routeLines names errorCode) :=
    fun heads hHeads => textsHeaded_other (apart_frame hHeads) (headed_of_mem (by simp))
  have hRegister := hOther registerHeads List.mem_cons_self
  refine ⟨hRoute.dispatched.congr fun heads hHeads => hOther heads (List.mem_cons_of_mem _ hHeads),
    fun hNone => hRegister.trans (hRoute.direct hNone), fun hSome => ?_⟩
  obtain ⟨arms, chain, missing, hMatch, hArms⟩ := (hRoute.chained hSome).arms
  refine ⟨⟨arms, chain, missing, ?_, hArms⟩, hRegister.trans (hRoute.chained hSome).both⟩
  rw [sections_other (by decide), hMatch]

theorem sections_blockLines (e : Endpoint) : sections 0 "\x7b" (e.blockLines names errorCode)
    = [("\x7b", nest (code "let h = Arc::clone(&h);" :: e.routeLines names errorCode))] :=
  sections_block (by decide) (by decide) (solid_code.mpr (solid_routeLines names errorCode e))

/-! ### Functions of traits -/

theorem sections_handlerLines (e : Endpoint) : sections 0 "fn " (e.handlerLines names) = [("fn " ++ e.name ++ "(",
    nest [code "&self,", code "ctx: router::Context,", code ("input: &" ++ e.input.text names ++ ","),
      code ("output: &mut " ++ e.output.text names ++ ",")])] := by
  have hName : Begins "fn " ("fn " ++ e.name ++ "(") := (begins_append _ _).append _
  rw [handlerLines, sections_append flush_block, sections_docLines, sections_block hName (by decide) (by simp),
    List.nil_append]

theorem handlerPrinted (e : Endpoint) : HandlerPrinted names e ("fn " ++ e.name ++ "(",
    nest (nest [code "&self,", code "ctx: router::Context,", code ("input: &" ++ e.input.text names ++ ","),
      code ("output: &mut " ++ e.output.text names ++ ",")])) := by
  have hInput : Headed ["input: "] ("input: &" ++ e.input.text names ++ ",") := by
    have hHead : Headed ["input: "] "input: &" := by decide
    exact (hHead.append _).append _
  have hOutput : Headed ["output: "] ("output: &mut " ++ e.output.text names ++ ",") := by
    have hHead : Headed ["output: "] "output: &mut " := by decide
    exact (hHead.append _).append _
  have hFirst : ∀ heads, Apart heads ["&self,", "ctx: "] → ∀ lines,
      textsHeaded heads (nest (nest (code "&self," :: code "ctx: router::Context," :: lines)))
        = textsHeaded heads lines := by
    intro heads hApart lines
    rw [textsHeaded_nest, textsHeaded_nest, textsHeaded_other hApart (by decide), textsHeaded_other hApart (by decide)]
  refine ⟨rfl, ?_, ?_⟩
  · rw [hFirst _ (by decide), textsHeaded_code hInput, textsHeaded_other (by decide) hOutput]
    rfl
  · rw [hFirst _ (by decide), textsHeaded_other (by decide) hInput, textsHeaded_code hOutput]
    rfl

end Endpoint

/-! ### Services -/

@[simp] def outerHeads : List String :=
  ["use ", "pub trait ", "fn ", "&self,", "ctx: router::Context,", "input: &", "output: &mut ",
    ") -> impl Future<Output = Result<(), router::Error>> + Send;", "pub fn register_", "\x7d"]

theorem apart_outer : Apart registerHeads outerHeads := by
  decide +kernel

theorem forall₂_flatMap {α β : Type} {R : α → β → Prop} {items : List α} {f : α → List β}
    (h : ∀ item ∈ items, List.Forall₂ R [item] (f item)) : List.Forall₂ R items (items.flatMap f) := by
  induction items with
  | nil => exact .nil
  | cons item rest ih =>
    rw [List.flatMap_cons, ← List.singleton_append]
    exact List.rel_append (h item List.mem_cons_self) (ih fun other hOther => h other (List.mem_cons_of_mem _ hOther))

namespace Service

variable (names : LocalNames) (errorCode : Int)

theorem flush_handlerLines (e : Endpoint) : Flush (e.handlerLines names) := (flush_docLines _).append flush_block

theorem solid_handlers (s : Service) : Solid (s.endpoints.flatMap (Endpoint.handlerLines names)) := by
  simp [Endpoint.handlerLines]

theorem traitPrinted (s : Service) :
    List.Forall₂ (TraitPrinted names) [s] (sections 0 "pub trait " (s.traitLines names)) := by
  have hName : Begins "pub trait " ("pub trait " ++ s.name ++ "Handler: Send + Sync + 'static \x7b") :=
    (begins_append _ _).append _
  have hTrait : sections 0 "pub trait " (s.traitLines names)
      = [("pub trait " ++ s.name ++ "Handler: Send + Sync + 'static \x7b",
        nest (s.endpoints.flatMap (Endpoint.handlerLines names)))] := by
    rw [traitLines, sections_append flush_blank, sections_append flush_block, sections_documentation,
      sections_block hName (by decide) (solid_handlers names s)]
    rfl
  rw [hTrait]
  refine .cons ⟨rfl, ?_⟩ .nil
  rw [sections_nest, sections_flatMap fun e _ => flush_handlerLines names e, List.map_flatMap]
  simp only [Endpoint.sections_handlerLines]
  exact forall₂_flatMap fun e _ => .cons (Endpoint.handlerPrinted names e) .nil

theorem begins_registerHead (s : Service) {rest : String} (h : Begins "(" rest) :
    Begins ("pub fn register_" ++ s.stem ++ "_handler<H: " ++ s.name ++ "Handler>(") (s.registerHead ++ rest) := by
  have hParenthesis : "Handler>(" = "Handler>" ++ "(" := rfl
  rw [hParenthesis, ← String.append_assoc]
  exact h.behind s.registerHead

def blocks (s : Service) : List Line :=
  code "let h = Arc::new(h);" :: s.endpoints.flatMap (Endpoint.blockLines names errorCode)

theorem registerLines_of_ne_nil {s : Service} (h : s.endpoints ≠ []) : s.registerLines names errorCode
    = .doc 0 ("Registers the routes of `" ++ s.name ++ "` on `g`, dispatching requests to `h`.")
      :: block (s.registerHead ++ "(g: &mut router::Engine, h: H) \x7b") (s.blocks names errorCode) "\x7d"
        ++ [.blank] := by
  have hSome : ¬ s.endpoints.isEmpty = true := fun hEmpty => h (List.isEmpty_iff.mp hEmpty)
  rw [registerLines, if_neg hSome]
  rfl

theorem registerLines_of_eq_nil {s : Service} (h : s.endpoints = []) : s.registerLines names errorCode
    = [.doc 0 ("Registers the routes of `" ++ s.name ++ "` on `g`, dispatching requests to `h`."),
      code (s.registerHead ++ "(_g: &mut router::Engine, _h: H) \x7b\x7d"), .blank] := by
  rw [registerLines, h]
  rfl

theorem flush_blockLines (e : Endpoint) : Flush (e.blockLines names errorCode) := flush_block

theorem sections_blocks (s : Service) : sections 0 "\x7b" (s.blocks names errorCode) = s.endpoints.flatMap fun e =>
    [("\x7b", nest (code "let h = Arc::clone(&h);" :: e.routeLines names errorCode))] := by
  rw [blocks, sections_other (by decide), sections_flatMap fun e _ => flush_blockLines names errorCode e]
  simp only [Endpoint.sections_blockLines]

theorem registrations_blocks (s : Service) : registrations (s.blocks names errorCode)
    = (sections 0 "\x7b" (s.blocks names errorCode)).flatMap fun block => registrations block.2 := by
  rw [sections_blocks, List.flatMap_assoc, registrations, blocks,
    textsHeaded_other Endpoint.apart_frame_register (headed_of_mem (by simp)), textsHeaded_flatMap]
  refine List.flatMap_congr fun e _ => ?_
  rw [List.flatMap_singleton, registrations, textsHeaded_nest]
  exact textsHeaded_block_other Endpoint.apart_frame_register (headed_of_mem (by simp)) (headed_of_mem (by simp))

theorem registerPrinted_blocks {s : Service} {text : String}
    (h : Begins ("pub fn register_" ++ s.stem ++ "_handler<H: " ++ s.name ++ "Handler>(") text) :
    RegisterPrinted names s (text, nest (s.blocks names errorCode)) := by
  refine ⟨h, ?_, ?_⟩
  · rw [sections_nest, sections_blocks, List.map_flatMap]
    exact forall₂_flatMap fun e _ => .cons (Endpoint.routePrinted_clone names errorCode e).nest.nest .nil
  · rw [sections_nest, List.flatMap_map, registrations, textsHeaded_nest]
    refine (registrations_blocks names errorCode s).trans (List.flatMap_congr fun block _ => ?_)
    exact textsHeaded_nest.symm

theorem registerPrinted (s : Service) :
    List.Forall₂ (RegisterPrinted names) [s] (sections 0 "pub fn register_" (s.registerLines names errorCode)) ∧
      registrations (s.registerLines names errorCode)
        = (sections 0 "pub fn register_" (s.registerLines names errorCode)).flatMap fun register =>
          registrations register.2 := by
  have hRegister : Begins "pub fn register_" s.registerHead := by
    unfold registerHead
    exact (((begins_append _ _).append _).append _).append _
  have hHead : ∀ rest, Headed outerHeads (s.registerHead ++ rest) :=
    fun rest => ⟨"pub fn register_", by simp, hRegister.append rest⟩
  by_cases hNone : s.endpoints = []
  · have hSection : sections 0 "pub fn register_" (s.registerLines names errorCode)
        = [(s.registerHead ++ "(_g: &mut router::Engine, _h: H) \x7b\x7d", [])] := by
      rw [registerLines_of_eq_nil names errorCode hNone, sections_doc, sections,
        headedText?_code (hRegister.append _)]
      rfl
    have hPrinted : RegisterPrinted names s (s.registerHead ++ "(_g: &mut router::Engine, _h: H) \x7b\x7d", []) := by
      refine ⟨begins_registerHead s (by decide), ?_, rfl⟩
      rw [hNone]
      exact .nil
    rw [hSection, registerLines_of_eq_nil names errorCode hNone, registrations, textsHeaded_doc,
      textsHeaded_other apart_outer (hHead _)]
    exact ⟨.cons hPrinted .nil, rfl⟩
  · have hSolid : Solid (s.blocks names errorCode) := by
      simp [blocks, Endpoint.blockLines, Endpoint.solid_routeLines]
    have hSection : sections 0 "pub fn register_" (s.registerLines names errorCode)
        = [(s.registerHead ++ "(g: &mut router::Engine, h: H) \x7b", nest (s.blocks names errorCode))] := by
      rw [registerLines_of_ne_nil names errorCode hNone, List.cons_append, sections_doc, sections_append flush_blank,
        sections_block (hRegister.append _) (by decide) hSolid]
      rfl
    rw [hSection, registerLines_of_ne_nil names errorCode hNone]
    refine ⟨.cons (registerPrinted_blocks names errorCode (begins_registerHead s (by decide))) .nil, ?_⟩
    rw [registrations, List.cons_append, textsHeaded_doc, textsHeaded_append,
      textsHeaded_block_other apart_outer (hHead _) (headed_of_mem (by simp)), List.flatMap_singleton, registrations,
      textsHeaded_nest]
    exact List.append_nil _

theorem flush_traitLines (s : Service) : Flush (s.traitLines names) :=
  ((flush_documentation _ _).append flush_block).append flush_blank

theorem flush_registerLines (s : Service) : Flush (s.registerLines names errorCode) := flush_doc

theorem sections_traitLines (s : Service) : sections 0 "pub fn register_" (s.traitLines names) = [] := by
  have hTrait : Differs "pub fn register_".toList "pub trait " := by decide
  rw [traitLines, sections_append flush_blank, sections_append flush_block, sections_documentation,
    sections_block_other ((hTrait.append _).append _) (by decide)]
  rfl

theorem registrations_traitLines (s : Service) : registrations (s.traitLines names) = [] := by
  have hHead : ∀ head ∈ outerHeads, ∀ middle rest : String, Headed outerHeads (head ++ middle ++ rest) :=
    fun head hHead middle rest => ⟨head, hHead, (begins_append _ _).append _⟩
  have hHandlers : AllTexts (Headed outerHeads) (s.endpoints.flatMap (Endpoint.handlerLines names)) := by
    rw [allTexts_flatMap]
    intro e _
    simp only [Endpoint.handlerLines, allTexts_append, allTexts_docLines, allTexts_block, allTexts_code, allTexts_nil,
      true_and, and_true]
    exact ⟨hHead _ (by simp) _ _, ⟨headed_of_mem (by simp), headed_of_mem (by simp), hHead _ (by simp) _ _,
      hHead _ (by simp) _ _⟩, headed_of_mem (by simp)⟩
  rw [registrations, traitLines, textsHeaded_append, textsHeaded_append, textsHeaded_documentation,
    textsHeaded_block_other apart_outer (hHead _ (by simp) _ _) (headed_of_mem (by simp)),
    textsHeaded_of_apart apart_outer hHandlers]
  rfl

end Service

/-! ### Files -/

namespace ApiFile

variable (config : Config)

theorem codeTexts_header (file : FileNode) : codeTexts (header file) = [] := by
  have hComment : ∀ comment : String,
      codeTexts (.innerDoc "" :: (commentLines comment).map .innerDoc) = [] := by
    intro comment
    refine List.filterMap_eq_nil_iff.mpr (List.forall_mem_cons.mpr ⟨rfl, fun line hLine => ?_⟩)
    obtain ⟨text, -, rfl⟩ := List.mem_map.mp hLine
    rfl
  unfold header
  rw [codeTexts_append, codeTexts_append]
  cases file.comment? SourcePath.package with
  | none => rfl
  | some comment =>
    dsimp only
    rw [hComment]
    rfl

theorem headed_packageUses (params : Parameters) (names : LocalNames) :
    AllTexts (Headed outerHeads) (params.packageUses names) := by
  rw [AllTexts, Parameters.packageUses, codeTexts_map]
  rintro text hText
  obtain ⟨⟨path, name⟩, -, rfl⟩ := List.mem_map.mp hText
  refine ⟨"use ", by simp, ?_⟩
  unfold Parameters.packageUse
  dsimp only
  split
  · exact (begins_append _ _).append _
  · exact (((begins_append _ _).append _).append _).append _

theorem headed_uses (params : Parameters) (api : ApiFile) : AllTexts (Headed outerHeads) (api.uses params) := by
  have hUse : ∀ path rest : String, Headed outerHeads ("use " ++ path ++ rest) :=
    fun path rest => ⟨"use ", by simp, (begins_append _ _).append _⟩
  have hFixed : ∀ item, Begins "use " item → Headed outerHeads item := fun item h => ⟨"use ", by simp, h⟩
  unfold uses
  simp only [allTexts_append]
  refine ⟨⟨⟨?_, ?_⟩, ?_⟩, headed_packageUses params api.names⟩
  · split
    · exact allTexts_nil.mpr trivial
    · exact allTexts_code.mpr ⟨hUse _ _, allTexts_nil.mpr trivial⟩
  · split
    · exact allTexts_code.mpr ⟨hUse _ _, allTexts_nil.mpr trivial⟩
    · exact allTexts_nil.mpr trivial
  · split
    · exact allTexts_nil.mpr trivial
    · rw [allTexts_code, allTexts_code, allTexts_nil]
      exact ⟨hFixed _ (by decide), hFixed _ (by decide), trivial⟩

theorem flush_services (api : ApiFile) : Flush (api.services.flatMap fun service =>
    service.traitLines api.names ++ service.registerLines api.names config.errorCode) :=
  flush_flatMap fun s _ => (Service.flush_traitLines api.names s).append (Service.flush_registerLines _ _ s)

theorem flush_uses (params : Parameters) (api : ApiFile) : Flush (api.uses params) := by
  unfold uses
  refine Flush.append (Flush.append (Flush.append ?_ ?_) ?_) ?_
  · split <;> simp
  · split <;> simp
  · split <;> simp
  · unfold Parameters.packageUses
    cases LocalNames.toList api.names with
    | nil => exact flush_nil
    | cons entry rest => exact flush_code

/-- The sections of an API at the margin are those of its services. -/
theorem sections_lines {head : String} (hUse : Differs head.toList "use ") (api : ApiFile) :
    sections 0 head (api.lines config) = api.services.flatMap fun service =>
      sections 0 head (service.traitLines api.names)
        ++ sections 0 head (service.registerLines api.names config.errorCode) := by
  rw [lines, sections_append (flush_services config api), sections_append flush_blank,
    sections_append (flush_uses _ api), sections_eq_nil_of_names (declaredNames_header api.file),
    sections_eq_nil_of_names (declaredNames_apiUses hUse _ api), List.nil_append, List.nil_append,
    sections_flatMap fun s _ => (Service.flush_traitLines api.names s).append (Service.flush_registerLines _ _ s)]
  exact List.flatMap_congr fun s _ => sections_append (Service.flush_registerLines _ _ s)

theorem traits_lines (api : ApiFile) : sections 0 "pub trait " (api.lines config)
    = api.services.flatMap fun s => sections 0 "pub trait " (s.traitLines api.names) := by
  rw [sections_lines config (by decide)]
  refine List.flatMap_congr fun s _ => ?_
  rw [sections_eq_nil_of_names (traitNames_registerLines api.names config.errorCode s), List.append_nil]

theorem registers_lines (api : ApiFile) : sections 0 "pub fn register_" (api.lines config)
    = api.services.flatMap fun s => sections 0 "pub fn register_" (s.registerLines api.names config.errorCode) := by
  rw [sections_lines config (by decide)]
  refine List.flatMap_congr fun s _ => ?_
  rw [Service.sections_traitLines, List.nil_append]

theorem registrations_lines (api : ApiFile) : registrations (api.lines config)
    = api.services.flatMap fun s => registrations (s.registerLines api.names config.errorCode) := by
  have hHeader : textsHeaded registerHeads (header api.file) = [] := by
    rw [textsHeaded, codeTexts_header]
    rfl
  rw [registrations, lines, textsHeaded_append, textsHeaded_append, textsHeaded_append, hHeader,
    textsHeaded_of_apart apart_outer (headed_uses _ api), textsHeaded_flatMap]
  refine List.flatMap_congr fun s _ => ?_
  rw [textsHeaded_append, ← registrations, Service.registrations_traitLines, List.nil_append]
  rfl

variable {scope : Scope} {rules : Rules} {api : ApiFile}

/-- An API that can be made prints each method of each service once as a function of a trait and once as a block of
a registration, in the order of their declaration, and registers no other routes. -/
theorem routes_printed (h : ofScope scope rules = .ok api) : RoutesPrinted scope rules config api := by
  have hOffers := offers_of_ofScope h
  refine ⟨hOffers, ?_, ?_, ?_, ?_⟩
  · intro s hS
    obtain ⟨⟨decl, i⟩, -, hOffered⟩ := exists_of_forall₂_right hOffers s hS
    refine ⟨hOffered.names.nodup, fun e hE => ?_⟩
    have hFree := hOffered.names.not_mem _ (List.mem_map_of_mem hE)
    simpa [isKeyword] using hFree
  · rw [traits_lines]
    exact forall₂_flatMap fun s _ => Service.traitPrinted api.names s
  · rw [registers_lines]
    exact forall₂_flatMap fun s _ => (Service.registerPrinted api.names config.errorCode s).1
  · rw [registrations_lines, registers_lines, List.flatMap_assoc]
    exact List.flatMap_congr fun s _ => (Service.registerPrinted api.names config.errorCode s).2

/-- A file with two methods that share a name in the case of functions, one of them with middleware, and a method that
is called by a keyword. -/
def twinMethods : FileDecl where
  name := "a.proto"
  services := [{ name := "S", methods := [
    { name := "GetIt", inputType := emptyTypeName, outputType := emptyTypeName },
    { name := "get_it", inputType := emptyTypeName, outputType := emptyTypeName },
    { name := "Move", inputType := emptyTypeName, outputType := emptyTypeName }] }]
  locations := [⟨[6, 0, 2, 1], some "@tag middleware:auth"⟩]

theorem routes_printed_twinMethods : ∃ rules api,
    ofScope { singleFileScope twinMethods with pass := .api } rules = .ok api ∧
      RoutesPrinted { singleFileScope twinMethods with pass := .api } rules {} api ∧
      api.endpoints.map (fun e => (e.name, e.directives.middleware))
        = [("get_it", []), ("get_it_", ["auth"]), ("move_", [])] := by
  refine ⟨.ofList [("S.GetIt", { pattern := some (.get "/1") }), ("S.get_it", { pattern := some (.post "/2") }),
    ("S.Move", { pattern := some (.get "/3") })], _, rfl, routes_printed {} rfl, ?_⟩
  decide +kernel

end ApiFile

end ProtoBind.Emit
