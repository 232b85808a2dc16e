import ProtoBind.Emit.Api
import ProtoBind.Proofs.CodeTexts

/-!
# Texts in the body of an API

The forms that a line of code in the body of an API can have. Where a binding is referred to is told by
these forms.
-/

set_option autoImplicit false

namespace ProtoBind.Emit

open Naming Text

/-- What a line of code begins with that refers to a type of the module of bindings. -/
def bindingHeads : List String :=
  ["let _ = ctx.bind_body_with(&mut input, binding::", "let _ = ctx.bind_with(&mut input, binding::",
    "if let Err(err) = ctx.bind_body_with(&mut input, binding::",
    "if let Err(err) = ctx.bind_with(&mut input, binding::"]

@[simp] def serviceHeads : List String :=
  ["pub trait ", "fn ", "&self,", "ctx: router::Context,", "input: &", "output: &mut ",
    ") -> impl Future<Output = Result<(), router::Error>> + Send;", "pub fn register_", "let h = Arc::new(h);",
    "let h = Arc::clone(&h);", "g.get(", "g.post(", "g.handle(router::Method::", "match g.middlewares(&[",
    "router::Resolved::Chain(chain) => \x7b", "router::Resolved::Missing(name) => \x7b", "async move \x7b",
    "async move \x7b router::error(&ctx, ", "let mut input = ", "let input = ", "let mut output = ",
    "let _ = ctx.bind_query(", "if let Err(err) = ctx.bind_query(", "let _ = h.", "if let Err(err) = h.",
    "return router::error(&ctx, ", "let err = router::Error::missing_middleware(&name);",
    "router::json(&ctx, &output)", "ctx.finish()", "\x7b", "\x7d", "\x7d);"]

/-- The forms of a line of code in the body of an API, some of whose methods may use a binding. -/
def ServiceText (bound : Prop) (text : String) : Prop :=
  Headed serviceHeads text ∨ bound ∧ Headed bindingHeads text

theorem ServiceText.of_mem {bound : Prop} {text : String} (h : text ∈ serviceHeads) : ServiceText bound text :=
  .inl (headed_of_mem h)

theorem ServiceText.bound {bound : Prop} {text : String} (h : ServiceText bound text)
    (hBinding : Headed bindingHeads text) : bound := by
  rcases h with hHead | ⟨hBound, -⟩
  · obtain ⟨head, hMem, hBegins⟩ := hBinding
    have hApart : ∀ binding ∈ bindingHeads, ∀ head ∈ serviceHeads,
        ¬ Begins head binding ∧ ¬ Begins binding head := by
      decide +kernel
    exact absurd hBegins (hHead.not_begins (hApart head hMem))
  · exact hBound

namespace Endpoint

variable {bound : Prop} {e : Endpoint}

/-! ### Requests -/

/-- A request with a body is read through a binding. -/
theorem bindCall_cases (e : Endpoint) : e.route.verb = .get ∧ Begins "ctx.bind_query(" e.bindCall ∨
    e.route.verb = .post ∧ (Begins "ctx.bind_body_with(&mut input, binding::" e.bindCall ∨
      Begins "ctx.bind_with(&mut input, binding::" e.bindCall) := by
  have hSelf : Begins "ctx.bind_with(&mut input, binding::" "ctx.bind_with(&mut input, binding::" :=
    List.prefix_refl _
  unfold bindCall
  cases e.route.verb with
  | get => exact .inl ⟨rfl, (by decide : Begins "ctx.bind_query(" "ctx.bind_query(&mut input)")⟩
  | post =>
    refine .inr ⟨rfl, ?_⟩
    cases e.directives.binding with
    | json => exact .inl (by decide)
    | form | query | formPost | formMultipart => exact .inr ((hSelf.append _).append _)

/-- The line of a call that reads the request. -/
theorem headed_bindCall {front : String} (hFront : front ∈ ["let _ = ", "if let Err(err) = "])
    (back : String) : e.route.verb = .get ∧ Headed serviceHeads (front ++ e.bindCall ++ back) ∨
      e.route.verb = .post ∧ Headed bindingHeads (front ++ e.bindCall ++ back) := by
  have hQuery : front ++ "ctx.bind_query(" ∈ serviceHeads := by
    revert front
    decide
  have hBody : front ++ "ctx.bind_body_with(&mut input, binding::" ∈ bindingHeads := by
    revert front
    decide
  have hWhole : front ++ "ctx.bind_with(&mut input, binding::" ∈ bindingHeads := by
    revert front
    decide
  rcases bindCall_cases e with ⟨hGet, hCall⟩ | ⟨hPost, hCall | hCall⟩
  · exact .inl ⟨hGet, _, hQuery, (hCall.behind front).append back⟩
  · exact .inr ⟨hPost, _, hBody, (hCall.behind front).append back⟩
  · exact .inr ⟨hPost, _, hWhole, (hCall.behind front).append back⟩

theorem codeTexts_reported (errorCode : Int) (call : String) : codeTexts (reported errorCode call)
    = ["if let Err(err) = " ++ call ++ " \x7b", "return router::error(&ctx, " ++ toString errorCode ++ ", err);",
      "\x7d"] := by
  rw [reported, codeTexts_block, codeTexts_code, codeTexts_nil]
  rfl

theorem codeTexts_ignored (call : String) : codeTexts (ignored call) = ["let _ = " ++ call ++ ";"] := rfl

theorem headed_return (errorCode : Int) :
    Headed serviceHeads ("return router::error(&ctx, " ++ toString errorCode ++ ", err);") := by
  have hReturn : Headed serviceHeads "return router::error(&ctx, " := headed_of_mem (by simp)
  exact (hReturn.append _).append _

theorem exists_bindTexts (errorCode : Int) (hBinds : e.binds = true) :
    ∃ front ∈ ["let _ = ", "if let Err(err) = "], ∃ back rest,
      codeTexts (e.bindLines errorCode) = (front ++ e.bindCall ++ back) :: rest ∧
        ∀ text ∈ rest, Headed serviceHeads text := by
  unfold bindLines
  rw [hBinds, Bool.not_true, if_neg Bool.false_ne_true]
  split
  · refine ⟨_, by decide, _, _, codeTexts_reported errorCode e.bindCall, ?_⟩
    rw [List.forall_mem_cons, List.forall_mem_singleton]
    exact ⟨headed_return errorCode, headed_of_mem (by simp)⟩
  · exact ⟨_, by decide, _, _, codeTexts_ignored e.bindCall, fun text h => absurd h List.not_mem_nil⟩

/-- The lines that fill the input refer to a binding just where the request has a body. -/
theorem bindTexts_spec (errorCode : Int) (e : Endpoint) :
    AllTexts (ServiceText (e.usesBinding = true)) (e.bindLines errorCode) ∧
      (e.usesBinding = true → ∃ text ∈ codeTexts (e.bindLines errorCode), Headed bindingHeads text) := by
  cases hBinds : e.binds with
  | false =>
    have hNone : e.bindLines errorCode = [] := by
      rw [bindLines, hBinds]
      rfl
    rw [hNone, usesBinding, hBinds]
    exact ⟨allTexts_nil.mpr trivial, nofun⟩
  | true =>
    obtain ⟨front, hFront, back, rest, hTexts, hRest⟩ := exists_bindTexts errorCode hBinds
    have hUses : e.usesBinding = true ↔ e.route.verb = .post := by
      rw [usesBinding, hBinds, Bool.true_and, beq_iff_eq]
    rw [AllTexts, hTexts, hUses, List.forall_mem_cons]
    rcases headed_bindCall hFront back with ⟨hGet, hCall⟩ | ⟨hPost, hCall⟩
    · refine ⟨⟨.inl hCall, fun text h => .inl (hRest text h)⟩, fun hPost => ?_⟩
      rw [hGet] at hPost
      cases hPost
    · exact ⟨⟨.inr ⟨hPost, hCall⟩, fun text h => .inl (hRest text h)⟩, fun _ => ⟨_, List.mem_cons_self, hCall⟩⟩

theorem headed_answerLines (errorCode : Int) (e : Endpoint) :
    AllTexts (Headed serviceHeads) (e.answerLines errorCode) := by
  have hHandler : Begins "h." ("h." ++ e.name ++ "(ctx.clone(), &input, &mut output).await") :=
    (begins_append "h." e.name).append _
  have hIgnored : "let _ = " ++ "h." ∈ serviceHeads := by decide
  have hReported : "if let Err(err) = " ++ "h." ∈ serviceHeads := by decide
  unfold answerLines
  dsimp only
  split
  · simp only [reported, allTexts_append, allTexts_block, allTexts_code, allTexts_nil, and_true]
    exact ⟨⟨⟨_, hReported, (hHandler.behind _).append _⟩, headed_return errorCode, headed_of_mem (by simp)⟩,
      headed_of_mem (by simp)⟩
  · simp only [ignored, allTexts_append, allTexts_code, allTexts_nil, and_true]
    exact ⟨⟨_, hIgnored, (hHandler.behind _).append _⟩, headed_of_mem (by simp)⟩

/-! ### Routes -/

variable (names : LocalNames) (errorCode : Int)

theorem serviceText_handlerLines (e : Endpoint) : AllTexts (ServiceText bound) (e.handlerLines names) := by
  have hName : Headed serviceHeads "fn " := headed_of_mem (by simp)
  have hInput : Headed serviceHeads "input: &" := headed_of_mem (by simp)
  have hOutput : Headed serviceHeads "output: &mut " := headed_of_mem (by simp)
  simp only [handlerLines, allTexts_append, allTexts_docLines, allTexts_block, allTexts_code, allTexts_nil, true_and,
    and_true]
  exact ⟨.inl ((hName.append _).append _), ⟨.of_mem (by simp), .of_mem (by simp), .inl ((hInput.append _).append _),
    .inl ((hOutput.append _).append _)⟩, .of_mem (by simp)⟩

theorem serviceText_dispatchLines (hBound : e.usesBinding = true → bound) :
    AllTexts (ServiceText bound) (e.dispatchLines names errorCode) := by
  have hInput : Headed serviceHeads ((if e.binds then "let mut input = " else "let input = ")) := by
    split <;> decide +kernel
  have hOutput : Headed serviceHeads "let mut output = " := headed_of_mem (by simp)
  have hBind : AllTexts (ServiceText bound) (e.bindLines errorCode) :=
    fun text h => ((bindTexts_spec errorCode e).1 text h).imp_right fun hUsed => ⟨hBound hUsed.1, hUsed.2⟩
  have hAnswer : AllTexts (ServiceText bound) (e.answerLines errorCode) :=
    fun text h => .inl (headed_answerLines errorCode e text h)
  simp only [dispatchLines, allTexts_code, allTexts_block, allTexts_append, allTexts_nil, and_true]
  exact ⟨.of_mem (by simp), .of_mem (by simp), ⟨⟨⟨.inl ((hInput.append _).append _),
    .inl ((hOutput.append _).append _)⟩, hBind⟩, hAnswer⟩, .of_mem (by simp)⟩

theorem exists_binding_dispatchLines (h : e.usesBinding = true) :
    ∃ text ∈ codeTexts (e.dispatchLines names errorCode), Headed bindingHeads text := by
  obtain ⟨text, hText, hBinding⟩ := (bindTexts_spec errorCode e).2 h
  refine ⟨text, ?_, hBinding⟩
  simp only [dispatchLines, codeTexts_append, codeTexts_block, codeTexts_code, List.mem_cons, List.mem_append]
  exact .inr (.inr (.inl (.inl (.inr hText))))

theorem serviceText_routeLines (hBound : e.usesBinding = true → bound) :
    AllTexts (ServiceText bound) (e.routeLines names errorCode) := by
  have hDispatch := serviceText_dispatchLines names errorCode hBound
  have hVerb : Headed serviceHeads ("g." ++ verbStem e.route.verb ++ "(") := by
    cases e.route.verb <;> decide +kernel
  have hMatch : Headed serviceHeads "match g.middlewares(&[" := headed_of_mem (by simp)
  have hHandle : ∀ chain, Headed serviceHeads (e.handleCall chain) := by
    have hHead : Headed serviceHeads "g.handle(router::Method::" := headed_of_mem (by simp)
    exact fun chain => ((((((hHead.append _).append _).append _).append _).append _).append _).append _
  have hMissing : Headed serviceHeads "async move \x7b router::error(&ctx, " := headed_of_mem (by simp)
  have hClose : Headed serviceHeads "\x7d" := headed_of_mem (by simp)
  have hRoute : Headed serviceHeads "\x7d);" := headed_of_mem (by simp)
  unfold routeLines
  dsimp only
  split
  · rw [allTexts_block]
    exact ⟨.inl (((hVerb.append _).append _).append _), hDispatch, .inl hRoute⟩
  · simp only [allTexts_block, allTexts_append, allTexts_code, allTexts_nil, and_true]
    refine ⟨.inl ((hMatch.append _).append _), ⟨⟨.of_mem (by simp), ?_, .inl hClose⟩, .of_mem (by simp), ?_,
      .inl hClose⟩, .inl hClose⟩
    · exact ⟨.inl (hHandle _), hDispatch, .inl hRoute⟩
    · exact ⟨.inl (hHandle _), ⟨.of_mem (by simp), .inl ((hMissing.append _).append _)⟩, .inl hRoute⟩

theorem dispatchTexts_subset (e : Endpoint) :
    codeTexts (e.dispatchLines names errorCode) ⊆ codeTexts (e.routeLines names errorCode) := by
  intro text hText
  unfold routeLines
  dsimp only
  split
  · simp [hText]
  · simp [hText]

end Endpoint

namespace Service

variable {bound : Prop} {s : Service} (names : LocalNames) (errorCode : Int)

theorem serviceText_traitLines (s : Service) : AllTexts (ServiceText bound) (s.traitLines names) := by
  have hTrait : Headed serviceHeads "pub trait " := headed_of_mem (by simp)
  simp only [traitLines, allTexts_append, allTexts_documentation, allTexts_block, allTexts_flatMap, allTexts_blank,
    allTexts_nil, true_and, and_true]
  exact ⟨.inl ((hTrait.append _).append _), fun e _ => Endpoint.serviceText_handlerLines names e,
    .of_mem (by simp)⟩

theorem serviceText_registerLines (hBound : ∀ e ∈ s.endpoints, e.usesBinding = true → bound) :
    AllTexts (ServiceText bound) (s.registerLines names errorCode) := by
  have hHead : Headed serviceHeads s.registerHead := by
    have hRegister : Headed serviceHeads "pub fn register_" := headed_of_mem (by simp)
    exact (((hRegister.append _).append _).append _).append _
  have hClose : Headed serviceHeads "\x7d" := headed_of_mem (by simp)
  unfold registerLines
  split
  · simp only [allTexts_append, allTexts_doc, allTexts_code, allTexts_blank, allTexts_nil, and_true]
    exact .inl (hHead.append _)
  · simp only [allTexts_append, allTexts_doc, allTexts_block, allTexts_code, allTexts_flatMap, allTexts_blank,
      allTexts_nil, and_true]
    refine ⟨.inl (hHead.append _), ⟨.of_mem (by simp), ?_⟩, .inl hClose⟩
    intro e hE
    exact ⟨.of_mem (by simp), ⟨.of_mem (by simp), Endpoint.serviceText_routeLines names errorCode (hBound e hE)⟩,
      .inl hClose⟩

theorem routeTexts_subset {e : Endpoint} (hE : e ∈ s.endpoints) :
    codeTexts (e.routeLines names errorCode) ⊆ codeTexts (s.registerLines names errorCode) := by
  intro text hText
  have hSome : ¬ s.endpoints.isEmpty = true := fun h => List.ne_nil_of_mem hE (List.isEmpty_iff.mp h)
  unfold registerLines
  rw [if_neg hSome, List.cons_append, codeTexts_doc]
  simp only [codeTexts_append, codeTexts_block, codeTexts_code, codeTexts_flatMap,
    List.mem_append, List.mem_cons, List.mem_flatMap]
  exact .inl (.inr (.inl (.inr ⟨e, hE, .inr (.inl (.inr hText))⟩)))

end Service

end ProtoBind.Emit
