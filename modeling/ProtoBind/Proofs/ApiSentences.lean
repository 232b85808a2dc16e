import ProtoBind.Proofs.LinePhrases
import ProtoBind.Proofs.UseItems

/-!
# APIs as sentences

The lines of an API are sentences of the grammar of items, if the names in them can be declared and no line of a
comment has a carriage return in it.
-/

set_option autoImplicit false

namespace ProtoBind.Emit

open Source Naming Text Http

variable {names : LocalNames}

/-! ## Payloads -/

theorem Payload.text_eq (p : Payload) : p.text names = "::".intercalate (p.path names) := by
  cases p with
  | empty => exact (by decide +kernel : "router::Empty" = "::".intercalate ["router", "Empty"])
  | named r => exact Reference.text_eq r

theorem Payload.path_ne_nil (p : Payload) : p.path names ≠ [] := by
  cases p with
  | empty => exact List.cons_ne_nil _ _
  | named r => exact Reference.path_ne_nil r

theorem Payload.Named.path {p : Payload} (h : p.Named names) : ∀ name ∈ p.path names, isSegment name = true := by
  cases p with
  | empty => exact (by decide : ∀ name ∈ ["router", "Empty"], isSegment name = true)
  | named r => exact Reference.Named.path h

theorem Payload.Named.writes {p : Payload} (h : p.Named names) :
    Writes .word (p.text names).toList (lexemesOf (pathPieces (p.path names))) := by
  rw [Payload.text_eq]
  exact writes_path p.path_ne_nil h.path

theorem Payload.Named.typeForm {p : Payload} (h : p.Named names) :
    ∃ type, TypeForm (pathPieces (p.path names)) (.type type) :=
  ⟨_, .path (typeForm_path p.path_ne_nil h.path false)⟩

theorem typeForm_router (name : String) (h : isSegment name = true) :
    ∃ type, TypeForm (pathPieces ["router", name]) (.type type) :=
  ⟨_, .path (typeForm_path (List.cons_ne_nil _ _)
    (List.forall_mem_cons.mpr ⟨by decide, List.forall_mem_singleton.mpr h⟩) false)⟩

/-! ## Statements -/

def StatementsForm (ps : List Piece) (body : List Stmt) : Prop := ExprForm ps (.statements body)

def FilledForm (ps : List Piece) (body : List Stmt) : Prop := StatementsForm ps body ∧ body ≠ []

def LeadsOn (lines : List Line) : Prop :=
  ∀ rest, Phrased StatementsForm rest → Phrased StatementsForm (lines ++ rest)

/-- Whether lines are at least one statement, and others may stand behind. -/
def Fills (lines : List Line) : Prop := ∀ rest, Phrased StatementsForm rest → Phrased FilledForm (lines ++ rest)

theorem Phrased.statements {lines : List Line} (h : Phrased FilledForm lines) : Phrased StatementsForm lines := by
  obtain ⟨ps, body, hLines, hForm, -⟩ := h
  exact ⟨ps, body, hLines, hForm⟩

theorem Fills.leadsOn {lines : List Line} (h : Fills lines) : LeadsOn lines := fun rest hRest =>
  (h rest hRest).statements

theorem leadsOn_nil : LeadsOn [] := fun _ hRest => hRest

theorem LeadsOn.append {lines more : List Line} (h : LeadsOn lines) (hMore : LeadsOn more) :
    LeadsOn (lines ++ more) := by
  intro rest hRest
  rw [List.append_assoc]
  exact h _ (hMore rest hRest)

theorem LeadsOn.flatMap {α : Type} {items : List α} {f : α → List Line}
    (h : ∀ item ∈ items, LeadsOn (f item)) : LeadsOn (items.flatMap f) := by
  induction items with
  | nil => exact leadsOn_nil
  | cons item rest ih =>
    exact (h item List.mem_cons_self).append (ih fun other hOther => h other (List.mem_cons_of_mem _ hOther))

theorem phrased_noStatements : Phrased StatementsForm [] := ⟨[], [], Lined.nil, .noStatements⟩

theorem LeadsOn.alone {lines : List Line} (h : LeadsOn lines) : Phrased StatementsForm lines := by
  have hAll := h [] phrased_noStatements
  rwa [List.append_nil] at hAll

theorem phrased_result {lines : List Line} {ps : List Piece} {value : Expr} (hLines : Lined lines ps)
    (hValue : ExprForm ps (.value value)) : Phrased StatementsForm lines := ⟨_, _, hLines, .result hValue⟩

/-- A fixed line. -/
theorem lined_fixed {text : String} {ps : List Piece} (hScan : scan text.length text.toList = some (lexemesOf ps)) :
    Lined [code text] ps := Lined.code (writes_of_scan hScan) rfl

/-- A binding. -/
theorem fills_bind {text : String} {lead ps : List Piece} {pattern : Pat} {value : Expr} {tail : Tail}
    {ls : List Lexeme} (hText : Writes tail text.toList ls) (hPattern : PatternForm lead (.pattern pattern))
    (hValue : ExprForm ps (.value value))
    (hLexemes : ls = lexemesOf (.word "let" :: (lead ++ Piece.mark "=" :: (ps ++ [Piece.mark ";"])))) :
    Fills [code text] := by
  rintro rest ⟨qs, body, hLines, hBody⟩
  have hAll : Lined ([code text] ++ rest)
      (.word "let" :: (lead ++ Piece.mark "=" :: (ps ++ Piece.mark ";" :: qs))) := by
    simpa using (Lined.code hText hLexemes).append hLines
  exact ⟨_, _, hAll, .bind hPattern hValue hBody, List.cons_ne_nil _ _⟩

/-- An expression that is run. -/
theorem fills_run {lines : List Line} {ps : List Piece} {value : Expr} (hLines : Lined lines (ps ++ [Piece.mark ";"]))
    (hValue : ExprForm ps (.value value)) : Fills lines := by
  rintro rest ⟨qs, body, hMore, hBody⟩
  have hAll : Lined (lines ++ rest) (ps ++ Piece.mark ";" :: qs) := by
    simpa using hLines.append hMore
  exact ⟨_, _, hAll, .run hValue hBody, List.cons_ne_nil _ _⟩

theorem fills_blocky {lines : List Line} {ps : List Piece} {value : Expr} (hLines : Lined lines ps)
    (hValue : ExprForm ps (.blocky value)) : Fills lines := by
  rintro rest ⟨qs, body, hMore, hBody⟩
  exact ⟨_, _, hLines.append hMore, .blocky hValue hBody, List.cons_ne_nil _ _⟩

/-- What a block consists of that does something. -/
theorem exists_block {lines : List Line} (h : Phrased FilledForm lines) :
    ∃ ps value, Lined lines ps ∧ ExprForm [.group .brace ps] (.blocky value) := by
  obtain ⟨ps, body, hLines, hForm, hNe⟩ := h
  cases body with
  | nil => exact absurd rfl hNe
  | cons first body => exact ⟨ps, _, hLines, .block hForm⟩

/-! ## Expressions -/

/-- Whether a text is an expression that may stand in front of a brace. -/
def IsOperand (text : String) : Prop :=
  ∃ ps value, ExprForm ps (.operand value) ∧ Writes .number text.toList (lexemesOf ps)

theorem isOperand_of_writes {text : String} {ps : List Piece} {value : Expr} {ls : List Lexeme}
    (hText : Writes .any text.toList ls) (h : ExprForm ps (.operand value)) (hLexemes : ls = lexemesOf ps) :
    IsOperand text := by
  subst hLexemes
  exact ⟨ps, value, h, hText.weaken .number⟩

/-- A call of what a path leads to. -/
theorem operand_call (first : String) (rest : List String) {ps : List Piece} {values : List Expr}
    (h : ∀ name ∈ first :: rest, isSegment name = true) (hArguments : ExprForm ps (.arguments values)) :
    ∃ value, ExprForm (pathPieces (first :: rest) ++ [.group .parenthesis ps]) (.operand value) :=
  ⟨_, .receiver (.call (typeForm_path (List.cons_ne_nil _ _) h true) hArguments)⟩

/-- A call of a method of a name. -/
theorem receiver_method (object method : String) {ps : List Piece} {values : List Expr}
    (hObject : isSegment object = true) (hMethod : isDeclarable method = true) (h : ExprForm ps (.arguments values)) :
    ∃ value, ExprForm [.word object, .mark ".", .word method, .group .parenthesis ps] (.receiver value) :=
  ⟨_, .method (receiver_name object hObject) hMethod h⟩

theorem value_borrowed (name : String) (h : isSegment name = true) :
    ∃ value, ExprForm [.mark "&", .word name] (.value value) :=
  ⟨_, .operand (.reference (.receiver (receiver_name name h)))⟩

theorem value_lent (name : String) (h : isSegment name = true) :
    ∃ value, ExprForm [.mark "&", .word "mut", .word name] (.value value) :=
  ⟨_, .operand (.mutable (.receiver (receiver_name name h)))⟩

/-- A path as an expression. -/
theorem operand_path (first : String) (rest : List String) (h : ∀ name ∈ first :: rest, isSegment name = true) :
    ∃ value, ExprForm (pathPieces (first :: rest)) (.operand value) :=
  ⟨_, .receiver (.path (typeForm_path (List.cons_ne_nil _ _) h true))⟩

/-! ## Requests -/

/-- The answer that reports a failure. -/
theorem isOperand_failure (errorCode : Int) :
    IsOperand ("router::error(&ctx, " ++ toString errorCode ++ ", err)") := by
  obtain ⟨ps, number, -, hNumber, hForm, -⟩ := writes_int errorCode
  obtain ⟨context, hContext⟩ := value_borrowed "ctx" (by decide)
  obtain ⟨value, hCall⟩ := operand_call "router" ["error"] (by decide)
    (.cons hContext (.cons (.operand hForm) (.last (value_name "err" (by decide)))))
  have hFront := Writes.ofFixed "router::error(&ctx, " [.word "router", .mark "::", .word "error",
    .opening .parenthesis, .mark "&", .word "ctx", .mark ","] (by decide +kernel)
  have hText := (hFront.next rfl hNumber).fixed ", err)" [.mark ",", .word "err", .closing .parenthesis]
    (by decide +kernel) rfl
  exact isOperand_of_writes hText hCall (by simp [pathPieces, lexemesOf_append])

theorem phrased_failure (errorCode : Int) :
    Phrased StatementsForm [code ("return router::error(&ctx, " ++ toString errorCode ++ ", err);")] := by
  obtain ⟨ps, value, hForm, hCall⟩ := isOperand_failure errorCode
  have hText := ((Writes.ofFixed "return " [.word "return"] rfl).next rfl hCall).fixed ";" [.mark ";"] rfl rfl
  have hLine : Lined [code ("return " ++ ("router::error(&ctx, " ++ toString errorCode ++ ", err)") ++ ";")]
      (Piece.word "return" :: ps ++ [.mark ";"]) := Lined.code hText (by simp [lexemesOf_append])
  have hSame : "return router::error(&ctx, " ++ toString errorCode ++ ", err);"
      = "return " ++ ("router::error(&ctx, " ++ toString errorCode ++ ", err)") ++ ";" := by
    rw [← String.toList_inj]
    simp
  rw [hSame]
  exact (fills_run hLine (.leave (.operand hForm))).leadsOn.alone

theorem fills_reported (errorCode : Int) {call : String} (h : IsOperand call) :
    Fills (Endpoint.reported errorCode call) := by
  obtain ⟨ps, value, hForm, hCall⟩ := h
  obtain ⟨qs, body, hLines, hBody⟩ := phrased_failure errorCode
  obtain ⟨pattern, hPattern⟩ := @pattern_applied "Err" [] _ _ (by decide) (by simp)
    (.bind (by decide : isDeclarable "err" = true))
  have hOpening := ((Writes.ofFixed "if let Err(err) = " [.word "if", .word "let", .word "Err", .opening .parenthesis,
    .word "err", .closing .parenthesis, .mark "="] (by decide +kernel)).next rfl hCall).fixed " \x7b" [.opening .brace]
    rfl rfl
  have hBlock : Lined (Endpoint.reported errorCode call) (.word "if" :: .word "let" :: (pathPieces ["Err"]
      ++ [.group .parenthesis [.word "err"]] ++ Piece.mark "=" :: (ps ++ [Piece.group .brace qs]))) :=
    Lined.block hOpening hLines (Writes.ofFixed "\x7d" [.closing .brace] rfl) (by simp [pathPieces, lexemesOf_append])
  exact fills_blocky hBlock (.attempt hPattern hForm hBody)

theorem fills_ignored {call : String} (h : IsOperand call) : Fills (Endpoint.ignored call) := by
  obtain ⟨ps, value, hForm, hCall⟩ := h
  have hFront := Writes.ofFixed "let _ = " [.word "let", .word "_", .mark "="] (by decide +kernel)
  have hText := (hFront.next rfl hCall).fixed ";" [.mark ";"] rfl rfl
  exact fills_bind hText .wild (.operand hForm) (by simp [lexemesOf_append])

theorem isSegment_binding (binding : Binding) : isSegment binding.typeName = true := by
  cases binding <;> decide

/-- A method of the context that takes the input and a binding, and is waited for. -/
theorem operand_bind (method binding : String) (hMethod : isDeclarable method = true)
    (hBinding : isSegment binding = true) :
    ∃ value, ExprForm [.word "ctx", .mark ".", .word method, .group .parenthesis [.mark "&", .word "mut",
      .word "input", .mark ",", .word "binding", .mark "::", .word binding], .mark ".", .word "await"]
      (.operand value) := by
  obtain ⟨input, hInput⟩ := value_lent "input" (by decide)
  obtain ⟨path, hPath⟩ := operand_path "binding" [binding]
    (List.forall_mem_cons.mpr ⟨by decide, List.forall_mem_singleton.mpr hBinding⟩)
  obtain ⟨value, hValue⟩ := receiver_method "ctx" method (by decide) hMethod (.cons hInput (.last (.operand hPath)))
  exact ⟨_, .receiver (.await hValue)⟩

theorem isOperand_bindCall (e : Endpoint) : IsOperand e.bindCall := by
  unfold Endpoint.bindCall
  split
  · obtain ⟨input, hInput⟩ := value_lent "input" (by decide)
    obtain ⟨value, hValue⟩ := receiver_method "ctx" "bind_query" (by decide) (by decide) (.last hInput)
    exact isOperand_of_writes (Writes.ofFixed "ctx.bind_query(&mut input)" _ (by decide +kernel)) (.receiver hValue) rfl
  · obtain ⟨value, hValue⟩ := operand_bind "bind_body_with" "Json" (by decide) (by decide)
    exact ⟨_, _, hValue, Writes.ofFixed "ctx.bind_body_with(&mut input, binding::Json).await" _ (by decide +kernel)⟩
  · have hBinding := isSegment_binding e.directives.binding
    obtain ⟨value, hValue⟩ := operand_bind "bind_with" e.directives.binding.typeName (by decide) hBinding
    have hFront := (Writes.ofFixed "ctx.bind_with(&mut input, binding::" [.word "ctx", .mark ".", .word "bind_with",
      .opening .parenthesis, .mark "&", .word "mut", .word "input", .mark ",", .word "binding", .mark "::"]
      (by decide +kernel)).next rfl (Writes.word (isWord_of_isSegment hBinding))
    exact ⟨_, _, hValue,
      hFront.fixed ").await" [.closing .parenthesis, .mark ".", .word "await"] (by decide +kernel) rfl⟩

theorem leadsOn_bindLines (errorCode : Int) (e : Endpoint) : LeadsOn (e.bindLines errorCode) := by
  unfold Endpoint.bindLines
  split
  · exact leadsOn_nil
  split
  · exact (fills_reported errorCode (isOperand_bindCall e)).leadsOn
  · exact (fills_ignored (isOperand_bindCall e)).leadsOn

/-- The call of the handler. -/
theorem isOperand_handler {name : String} (h : isDeclarable name = true) :
    IsOperand ("h." ++ name ++ "(ctx.clone(), &input, &mut output).await") := by
  obtain ⟨context, hContext⟩ := receiver_method "ctx" "clone" (by decide) (by decide) .noArguments
  obtain ⟨input, hInput⟩ := value_borrowed "input" (by decide)
  obtain ⟨output, hOutput⟩ := value_lent "output" (by decide)
  obtain ⟨value, hValue⟩ := receiver_method "h" name (by decide) h
    (.cons (.operand (.receiver hContext)) (.cons hInput (.last hOutput)))
  have hFront := (Writes.ofFixed "h." [.word "h", .mark "."] rfl).next rfl (Writes.word (isWord_of_isDeclarable h))
  have hText := hFront.fixed "(ctx.clone(), &input, &mut output).await" [.opening .parenthesis, .word "ctx", .mark ".",
    .word "clone", .opening .parenthesis, .closing .parenthesis, .mark ",", .mark "&", .word "input", .mark ",",
    .mark "&", .word "mut", .word "output", .closing .parenthesis, .mark ".", .word "await"] (by decide +kernel) rfl
  exact ⟨_, _, .receiver (.await hValue), hText⟩

theorem phrased_answerLines (errorCode : Int) {e : Endpoint} (h : isDeclarable e.name = true) :
    Phrased StatementsForm (e.answerLines errorCode) := by
  have hCall := isOperand_handler h
  unfold Endpoint.answerLines
  dsimp only
  split
  · obtain ⟨context, hContext⟩ := value_borrowed "ctx" (by decide)
    obtain ⟨output, hOutput⟩ := value_borrowed "output" (by decide)
    obtain ⟨value, hValue⟩ := operand_call "router" ["json"] (by decide) (.cons hContext (.last hOutput))
    have hResult := phrased_result (@lined_fixed "router::json(&ctx, &output)" _ (by decide +kernel)) (.operand hValue)
    exact (fills_reported errorCode hCall).leadsOn _ hResult
  · obtain ⟨value, hValue⟩ := receiver_method "ctx" "finish" (by decide) (by decide) .noArguments
    have hResult := phrased_result (@lined_fixed "ctx.finish()" _ (by decide +kernel)) (.operand (.receiver hValue))
    exact (fills_ignored hCall).leadsOn _ hResult

/-- The binding of the default of a type. -/
theorem fills_default {p : Payload} (h : p.Named names) {opening : String} {lead : List Piece} {pattern : Pat}
    (hPattern : PatternForm lead (.pattern pattern))
    (hOpening : Writes .any opening.toList (.word "let" :: (lexemesOf lead ++ [.mark "="]))) :
    Fills [code (opening ++ p.text names ++ "::default();")] := by
  have hPath : ∀ name ∈ p.path names ++ ["default"], isSegment name = true :=
    List.forall_mem_append.mpr ⟨h.path, by decide⟩
  have hNe : p.path names ++ ["default"] ≠ [] := List.append_ne_nil_of_left_ne_nil p.path_ne_nil _
  have hText := (hOpening.next rfl (writes_path hNe hPath)).fixed "();" [.opening .parenthesis, .closing .parenthesis,
    .mark ";"] rfl rfl
  have hSame : opening ++ p.text names ++ "::default();"
      = opening ++ "::".intercalate (p.path names ++ ["default"]) ++ "();" := by
    rw [intercalate_concat _ _ p.path_ne_nil, p.text_eq, ← String.toList_inj]
    simp
  rw [hSame]
  exact fills_bind hText hPattern (.operand (.receiver (.call (typeForm_path hNe hPath true) .noArguments)))
    (by simp [lexemesOf_append])

/-- What a request is handled with. -/
theorem fills_clone : Fills [code "let h = Arc::clone(&h);"] := by
  obtain ⟨handler, hHandler⟩ := value_borrowed "h" (by decide)
  obtain ⟨value, hValue⟩ := operand_call "Arc" ["clone"] (by decide) (.last hHandler)
  exact fills_bind (Writes.ofFixed "let h = Arc::clone(&h);" _ (by decide +kernel))
    (.bind (by decide : isDeclarable "h" = true)) (.operand hValue) rfl

structure Endpoint.Named (names : LocalNames) (e : Endpoint) : Prop where
  name : isDeclarable e.name = true
  input : e.input.Named names
  output : e.output.Named names
  comment : Plain e.comment

theorem phrased_dispatchLines (errorCode : Int) {e : Endpoint} (h : e.Named names) :
    Phrased StatementsForm (e.dispatchLines names errorCode) := by
  have hName : isDeclarable "input" = true := by decide
  have hInput : Fills [code ((if e.binds then "let mut input = " else "let input = ") ++ e.input.text names
      ++ "::default();")] := by
    split
    · exact fills_default h.input (.mutable hName) (Writes.ofFixed "let mut input = " _ (by decide +kernel))
    · exact fills_default h.input (.bind hName) (Writes.ofFixed "let input = " _ (by decide +kernel))
  have hOutput := fills_default h.output (.mutable (by decide : isDeclarable "output" = true))
    (Writes.ofFixed "let mut output = " _ (by decide +kernel))
  obtain ⟨ps, body, hLines, hBody⟩ := (hInput.leadsOn.append hOutput.leadsOn).append
    (leadsOn_bindLines errorCode e) _ (phrased_answerLines errorCode h.name)
  have hBlock : Lined (block "async move \x7b" _ "\x7d") [.word "async", .word "move", .group .brace ps] :=
    Lined.block (Writes.ofFixed "async move \x7b" [.word "async", .word "move", .opening .brace] (by decide +kernel))
      hLines (Writes.ofFixed "\x7d" [.closing .brace] rfl) (by simp)
  exact fills_clone.leadsOn _ (phrased_result hBlock (.operand (.asyncBlock hBody)))

/-! ## Routes -/

/-- The call that registers a route, whose last argument handles the requests. -/
theorem fills_registration {opening method : String} {ls : List Lexeme} {lead : List Piece} {lines : List Line}
    (hMethod : isDeclarable method = true) (hOpening : Writes .any opening.toList ls)
    (hLexemes : ls = .word "g" :: .mark "." :: .word method :: .opening .parenthesis :: lexemesOf lead)
    (hArguments : ∀ {ps : List Piece} {value : Expr}, ExprForm ps (.value value) →
      ∃ values, ExprForm (lead ++ ps) (.arguments values))
    (h : Phrased StatementsForm lines) : Fills (block (opening ++ Endpoint.closure) lines "\x7d);") := by
  subst hLexemes
  obtain ⟨ps, body, hLines, hBody⟩ := h
  obtain ⟨context, hContext⟩ := typeForm_router "Context" (by decide)
  obtain ⟨values, hValues⟩ := hArguments (.closure (by decide : isDeclarable "ctx" = true) hContext hBody)
  obtain ⟨value, hValue⟩ := receiver_method "g" method (by decide) hMethod hValues
  have hHead := hOpening.next rfl (Writes.ofFixed Endpoint.closure [.word "move", .mark "|", .word "ctx", .mark ":",
    .word "router", .mark "::", .word "Context", .mark "|", .opening .brace] (by decide +kernel))
  exact fills_run (Lined.block hHead hLines (Writes.ofFixed "\x7d);" [.closing .brace, .closing .parenthesis, .mark ";"]
    (by decide +kernel)) (by simp [pathPieces, lexemesOf_append])) (.operand (.receiver hValue))

theorem isDeclarable_verbStem (verb : Verb) : isDeclarable (Endpoint.verbStem verb) = true := by
  cases verb <;> decide

theorem isSegment_verbName (verb : Verb) : isSegment (Endpoint.verbName verb) = true := by
  cases verb <;> decide

theorem fills_handleCall {e : Endpoint} {chain : String} {lines : List Line} (hChain : IsOperand chain)
    (h : Phrased StatementsForm lines) : Fills (block (e.handleCall chain) lines "\x7d);") := by
  obtain ⟨ps, value, hForm, hText⟩ := hChain
  have hVerb := isSegment_verbName e.route.verb
  obtain ⟨path, hPath⟩ := operand_path "router" ["Method", Endpoint.verbName e.route.verb] (List.forall_mem_cons.mpr
    ⟨by decide, List.forall_mem_cons.mpr ⟨by decide, List.forall_mem_singleton.mpr hVerb⟩⟩)
  have hMethod := ((Writes.ofFixed "g.handle(router::Method::" [.word "g", .mark ".", .word "handle",
    .opening .parenthesis, .word "router", .mark "::", .word "Method", .mark "::"] (by decide +kernel)).next rfl
      (Writes.word (isWord_of_isSegment hVerb))).fixed ", " [.mark ","] rfl rfl
  have hRoute := (hMethod.next rfl (Writes.quoted e.route.path)).fixed ", " [.mark ","] rfl rfl
  have hOpening := (hRoute.next rfl hText).fixed ", " [.mark ","] rfl rfl
  refine @fills_registration _ "handle" _ (pathPieces ["router", "Method", Endpoint.verbName e.route.verb]
    ++ Piece.mark "," :: ([.literal (Quoted.encode e.route.path)] ++ Piece.mark "," :: (ps ++ [Piece.mark ","]))) _
    (by decide) hOpening (by simp [pathPieces, lexemesOf_append]) ?_ h
  intro qs handler hHandler
  have hLiteral : ExprForm [.literal (Quoted.encode e.route.path)] (.value (.literal (Quoted.encode e.route.path))) :=
    .operand (.literal (.inr ⟨_, rfl⟩))
  have hValues := ExprForm.cons (.operand hPath) (.cons hLiteral (.cons (.operand hForm) (.last hHandler)))
  exact ⟨_, by simpa using hValues⟩

/-- The registration of a route without middleware. -/
theorem fills_plainRoute {e : Endpoint} {lines : List Line} (h : Phrased StatementsForm lines) :
    Fills (block ("g." ++ Endpoint.verbStem e.route.verb ++ "(" ++ Quoted.encode e.route.path ++ ", "
      ++ Endpoint.closure) lines "\x7d);") := by
  have hVerb := isDeclarable_verbStem e.route.verb
  have hMethod := ((Writes.ofFixed "g." [.word "g", .mark "."] rfl).next rfl
    (Writes.word (isWord_of_isDeclarable hVerb))).fixed "(" [.opening .parenthesis] rfl rfl
  have hOpening := (hMethod.next rfl (Writes.quoted e.route.path)).fixed ", " [.mark ","] rfl rfl
  refine @fills_registration _ _ _ [.literal (Quoted.encode e.route.path), .mark ","] _ hVerb hOpening rfl ?_ h
  exact fun hHandler => ⟨_, .cons (.operand (.literal (.inr ⟨_, rfl⟩))) (.last hHandler)⟩

/-- Texts with commas between them. -/
theorem exists_texts (texts : List String) (hNe : texts ≠ []) :
    ∃ ps first values, ExprForm ps (.arguments (first :: values)) ∧
      Writes .word (", ".intercalate (texts.map Quoted.encode)).toList (lexemesOf ps) := by
  induction texts with
  | nil => exact absurd rfl hNe
  | cons text rest ih =>
    have hText : ExprForm [.literal (Quoted.encode text)] (.value (.literal (Quoted.encode text))) :=
      .operand (.literal (.inr ⟨_, rfl⟩))
    cases rest with
    | nil =>
      refine ⟨_, _, _, .last hText, ?_⟩
      rw [List.map_singleton, String.intercalate_singleton]
      exact Writes.quoted text
    | cons next rest =>
      obtain ⟨ps, first, values, hValues, hWrites⟩ := ih (List.cons_ne_nil next rest)
      refine ⟨_, _, _, .cons hText hValues, ?_⟩
      rw [List.map_cons, List.map_cons, String.intercalate_cons_cons, ← List.map_cons]
      exact ((Writes.quoted text).fixed ", " [.mark ","] rfl rfl).next rfl hWrites

def ArmsForm (ps : List Piece) (arms : List Arm) : Prop := ExprForm ps (.arms arms)

theorem phrased_noArms : Phrased ArmsForm [] := ⟨[], [], Lined.nil, .noArms⟩

/-- An arm for one case of the middleware. -/
theorem phrased_resolvedArm (opening case bound : String) {lines rest : List Line} (hCase : isSegment case = true)
    (hBound : isDeclarable bound = true)
    (hScan : scan opening.length opening.toList = some [.word "router", .mark "::", .word "Resolved", .mark "::",
      .word case, .opening .parenthesis, .word bound, .closing .parenthesis, .mark "=>", .opening .brace])
    (h : Phrased FilledForm lines) (hRest : Phrased ArmsForm rest) :
    Phrased ArmsForm (block opening lines "\x7d" ++ rest) := by
  obtain ⟨ps, value, hLines, hValue⟩ := exists_block h
  obtain ⟨qs, arms, hMore, hArms⟩ := hRest
  obtain ⟨pattern, hPattern⟩ := pattern_applied "router" ["Resolved", case] (by decide)
    (List.forall_mem_cons.mpr ⟨by decide, List.forall_mem_singleton.mpr hCase⟩) (.bind hBound)
  have hBlock : Lined (block opening lines "\x7d") (pathPieces ["router", "Resolved", case]
      ++ [.group .parenthesis [.word bound]] ++ Piece.mark "=>" :: [.group .brace ps]) :=
    Lined.block (Writes.ofFixed opening _ hScan) hLines (Writes.ofFixed "\x7d" [.closing .brace] rfl)
      (by simp [pathPieces])
  have hArm := ExprForm.blockyArm hPattern hValue hArms
  exact ⟨_, _, hBlock.append hMore, by simpa [ArmsForm] using hArm⟩

/-- What a route does whose middleware is missing. -/
theorem phrased_missing (errorCode : Int) : Phrased StatementsForm
    [code "let err = router::Error::missing_middleware(&name);",
    code ("async move \x7b router::error(&ctx, " ++ toString errorCode ++ ", err) \x7d")] := by
  obtain ⟨name, hName⟩ := value_borrowed "name" (by decide)
  obtain ⟨call, hCall⟩ := operand_call "router" ["Error", "missing_middleware"] (by decide) (.last hName)
  have hBinding : Fills [code "let err = router::Error::missing_middleware(&name);"] :=
    fills_bind (Writes.ofFixed "let err = router::Error::missing_middleware(&name);" _ (by decide +kernel))
      (.bind (by decide : isDeclarable "err" = true)) (.operand hCall) rfl
  obtain ⟨ps, value, hForm, hFailure⟩ := isOperand_failure errorCode
  have hFront := Writes.ofFixed "async move \x7b " [.word "async", .word "move", .opening .brace] (by decide +kernel)
  have hText := (hFront.next rfl hFailure).fixed " \x7d" [.closing .brace] rfl rfl
  have hLine : Lined [code ("async move \x7b " ++ ("router::error(&ctx, " ++ toString errorCode ++ ", err)")
      ++ " \x7d")]
      [.word "async", .word "move", .group .brace ps] := Lined.code hText (by simp)
  have hSame : "async move \x7b router::error(&ctx, " ++ toString errorCode ++ ", err) \x7d"
      = "async move \x7b " ++ ("router::error(&ctx, " ++ toString errorCode ++ ", err)") ++ " \x7d" := by
    rw [← String.toList_inj]
    simp
  rw [hSame]
  exact hBinding.leadsOn _ (phrased_result hLine (.operand (.asyncBlock (.result (.operand hForm)))))

theorem fills_middlewareRoute (errorCode : Int) {e : Endpoint} {middleware : List String} {lines : List Line}
    (hNe : middleware ≠ []) (h : Phrased StatementsForm lines) :
    Fills (block ("match g.middlewares(&[" ++ ", ".intercalate (middleware.map Quoted.encode) ++ "]) \x7b")
      (block "router::Resolved::Chain(chain) => \x7b" (block (e.handleCall "chain") lines "\x7d);") "\x7d"
        ++ block "router::Resolved::Missing(name) => \x7b"
          (block (e.handleCall "router::Chain::default()")
            [code "let err = router::Error::missing_middleware(&name);",
              code ("async move \x7b router::error(&ctx, " ++ toString errorCode ++ ", err) \x7d")]
            "\x7d);")
          "\x7d")
      "\x7d") := by
  have hChain : IsOperand "chain" := ⟨_, _, .receiver (receiver_name "chain" (by decide)),
    Writes.ofFixed "chain" [.word "chain"] (by decide +kernel)⟩
  obtain ⟨default, hDefault⟩ := operand_call "router" ["Chain", "default"] (by decide) .noArguments
  have hNone : IsOperand "router::Chain::default()" :=
    isOperand_of_writes (Writes.ofFixed "router::Chain::default()" _ (by decide +kernel)) hDefault rfl
  have hFound := fills_handleCall (e := e) hChain h [] phrased_noStatements
  have hMissing := fills_handleCall (e := e) hNone (phrased_missing errorCode) [] phrased_noStatements
  rw [List.append_nil] at hFound hMissing
  have hLast := phrased_resolvedArm "router::Resolved::Missing(name) => \x7b" "Missing" "name" (by decide) (by decide)
    (by decide +kernel) hMissing phrased_noArms
  have hArms := phrased_resolvedArm "router::Resolved::Chain(chain) => \x7b" "Chain" "chain" (by decide) (by decide)
    (by decide +kernel) hFound hLast
  rw [List.append_nil] at hArms
  obtain ⟨qs, arms, hLines, hCases⟩ := hArms
  obtain ⟨ps, first, values, hValues, hTexts⟩ := exists_texts middleware hNe
  obtain ⟨value, hValue⟩ := receiver_method "g" "middlewares" (by decide) (by decide)
    (.last (.operand (.reference (.array hValues))))
  have hHead := ((Writes.ofFixed "match g.middlewares(&[" [.word "match", .word "g", .mark ".", .word "middlewares",
    .opening .parenthesis, .mark "&", .opening .bracket] (by decide +kernel)).next rfl hTexts).fixed "])"
      [.closing .bracket, .closing .parenthesis] rfl rfl
  have hBlock := lined_match hHead rfl hLines [.word "g", .mark ".", .word "middlewares",
    .group .parenthesis [.mark "&", .group .bracket ps]] (by simp)
  have hSame : "match g.middlewares(&[" ++ ", ".intercalate (middleware.map Quoted.encode) ++ "]) \x7b"
      = "match g.middlewares(&[" ++ ", ".intercalate (middleware.map Quoted.encode) ++ "])" ++ " \x7b" := by
    rw [← String.toList_inj]
    simp
  rw [hSame]
  exact fills_blocky hBlock (.cases (.receiver hValue) hCases)

theorem fills_routeLines (errorCode : Int) {e : Endpoint} (h : e.Named names) :
    Fills (e.routeLines names errorCode) := by
  have hDispatch := phrased_dispatchLines errorCode h
  unfold Endpoint.routeLines
  dsimp only
  split
  · exact fills_plainRoute hDispatch
  · rename_i hNe
    exact fills_middlewareRoute errorCode hNe hDispatch

/-! ## Services -/

/-- The declaration of a method in the trait of its service. -/
theorem phrased_handlerLines {e : Endpoint} (h : e.Named names) : Phrased MembersForm (e.handlerLines names) := by
  obtain ⟨ps, attributes, hLead, hAttributes⟩ := phrased_docLines h.comment
  obtain ⟨input, hInput⟩ := h.input.typeForm
  obtain ⟨output, hOutput⟩ := h.output.typeForm
  have hInputs : Lined [code "&self,", code "ctx: router::Context,", code ("input: &" ++ e.input.text names ++ ","),
      code ("output: &mut " ++ e.output.text names ++ ",")] ([.mark "&", .word "self"] ++ Piece.mark ","
        :: ((.word "ctx" :: .mark ":" :: pathPieces ["router", "Context"]) ++ Piece.mark ","
          :: ((.word "input" :: .mark ":" :: .mark "&" :: pathPieces (e.input.path names)) ++ Piece.mark ","
            :: (.word "output" :: .mark ":" :: .mark "&" :: .word "mut" :: pathPieces (e.output.path names)
              ++ [Piece.mark ","])))) := by
    have hReceiver : Lined [code "&self,"] [.mark "&", .word "self", .mark ","] := lined_fixed (by decide +kernel)
    have hContext : Lined [code "ctx: router::Context,"] [.word "ctx", .mark ":", .word "router", .mark "::",
      .word "Context", .mark ","] := lined_fixed (by decide +kernel)
    have hTaken := ((Writes.ofFixed "input: &" [.word "input", .mark ":", .mark "&"] (by decide +kernel)).next rfl
      h.input.writes).fixed "," [.mark ","] rfl rfl
    have hGiven := ((Writes.ofFixed "output: &mut " [.word "output", .mark ":", .mark "&", .word "mut"]
      (by decide +kernel)).next rfl h.output.writes).fixed "," [.mark ","] rfl rfl
    have hTakenLine : Lined [code ("input: &" ++ e.input.text names ++ ",")] (.word "input" :: .mark ":" :: .mark "&"
      :: (pathPieces (e.input.path names) ++ [Piece.mark ","])) := Lined.code hTaken (by simp [lexemesOf_append])
    have hGivenLine : Lined [code ("output: &mut " ++ e.output.text names ++ ",")] (.word "output" :: .mark ":"
      :: .mark "&" :: .word "mut" :: (pathPieces (e.output.path names) ++ [Piece.mark ","])) :=
        Lined.code hGiven (by simp [lexemesOf_append])
    simpa [pathPieces] using ((hReceiver.append hContext).append hTakenLine).append hGivenLine
  obtain ⟨context, hContext⟩ := typeForm_router "Context" (by decide)
  obtain ⟨error, hError⟩ := typeForm_router "Error" (by decide)
  have hResult := TypeForm.path (@TypeForm.angled "Result" _ _ (by decide)
    (.cons (.argument .unit) (.last (.argument hError))))
  have hFuture := @TypeForm.angled "Future" _ _ (by decide)
    (.last (@TypeForm.equality "Output" _ _ (by decide) hResult))
  have hBounds := TypeForm.impl (.bounds hFuture (.bound (@TypeForm.name "Send" false (by decide))))
  have hFunction := FunctionForm.mk hAttributes .inherited (.mk h.name .nil
    (.cons .byReference (.cons (.typed (by decide : isDeclarable "ctx" = true) hContext)
      (.cons (.typed (by decide : isDeclarable "input" = true) (.reference hInput))
        (.ended (.typed (by decide : isDeclarable "output" = true) (.mutable hOutput)))))) (.some hBounds)) .declared
  have hOpening := ((Writes.ofFixed "fn " [.word "fn"] rfl).next rfl
    (Writes.word (isWord_of_isDeclarable h.name))).fixed "(" [.opening .parenthesis] rfl rfl
  have hClosing := Writes.ofFixed ") -> impl Future<Output = Result<(), router::Error>> + Send;" [.closing .parenthesis,
    .mark "->", .word "impl", .word "Future", .mark "<", .word "Output", .mark "=", .word "Result", .mark "<",
    .opening .parenthesis, .closing .parenthesis, .mark ",", .word "router", .mark "::", .word "Error", .mark ">",
    .mark ">", .mark "+", .word "Send", .mark ";"] (by decide +kernel)
  have hMembers := MembersForm.cons hFunction .nil
  rw [List.append_nil, List.nil_append] at hMembers
  exact ⟨_, _, hLead.append (Lined.block hOpening hInputs hClosing (by simp [pathPieces, lexemesOf_append])),
    hMembers⟩

structure Service.Named (names : LocalNames) (s : Service) : Prop where
  name : isCapital s.name = true
  stem : isSchemaName s.stem = true
  comment : Plain s.comment
  endpoints : ∀ e ∈ s.endpoints, e.Named names

theorem Service.Named.handler {s : Service} (h : s.Named names) : isDeclarable (s.name ++ "Handler") = true :=
  isDeclarable_append_of_capitals h.name (by decide : isCapital "Handler" = true) 0

theorem phrased_traitLines {s : Service} (h : s.Named names) : Phrased ItemsForm (s.traitLines names) := by
  obtain ⟨ps, attributes, hLead, hAttributes⟩ := phrased_documentation h.comment s.deprecated
  obtain ⟨qs, members, hMembers, hForm⟩ : Phrased MembersForm (s.endpoints.flatMap (Endpoint.handlerLines names)) :=
    .flatMap .nil .append fun e hE => phrased_handlerLines (h.endpoints e hE)
  have hOpening := ((Writes.ofFixed "pub trait " [.word "pub", .word "trait"] rfl).next rfl
    (Writes.word (isWord_of_isDeclarable h.handler))).fixed ": Send + Sync + 'static \x7b" [.mark ":", .word "Send",
      .mark "+", .word "Sync", .mark "+", .mark "'", .word "static", .opening .brace] (by decide +kernel) rfl
  have hBounds : TypeForm ([.word "Send"] ++ Piece.mark "+" :: ([.word "Sync"] ++ Piece.mark "+"
      :: [.mark "'", .word "static"])) (.bounds _) :=
    .bounds (.name false (by decide : isSegment "Send" = true))
      (.bounds (.name false (by decide : isSegment "Sync" = true)) .staticBound)
  have hSame : "pub trait " ++ s.name ++ "Handler: Send + Sync + 'static \x7b"
      = "pub trait " ++ (s.name ++ "Handler") ++ ": Send + Sync + 'static \x7b" := by
    rw [← String.toList_inj]
    simp
  have hItem : Phrased ItemForm (documentation s.comment s.deprecated ++ block _ _ "\x7d") :=
    ⟨_, _, hLead.append (Lined.block hOpening hMembers (Writes.ofFixed "\x7d" [.closing .brace] rfl) (by simp)),
      .trait hAttributes h.handler hBounds hForm⟩
  rw [Service.traitLines, hSame]
  exact hItem.item

def Service.registerName (s : Service) : String := "register_" ++ s.stem ++ "_handler"

theorem Service.Named.register {s : Service} (h : s.Named names) : isDeclarable s.registerName = true := by
  have hStem : ∀ c ∈ s.stem.toList, isNameChar c = true := fun c => isNameChar_of_mem h.stem
  have hName : isSchemaName s.registerName = true :=
    isSchemaName_append (isSchemaName_append (by decide) hStem) (forall_mem_of_all (by decide))
  have hUnderscore : '_' ∈ s.registerName.toList := by
    simp [registerName]
  refine isDeclarable_of_underscore hName hUnderscore fun hSame => ?_
  have hLength := congrArg (fun name => name.toList.length) hSame
  simp [registerName] at hLength

/-- The head of the function that registers the routes, up to its arguments. -/
theorem Service.Named.writes_registerHead {s : Service} (h : s.Named names) : Writes .any s.registerHead.toList
    [.word "pub", .word "fn", .word s.registerName, .mark "<", .word "H", .mark ":", .word (s.name ++ "Handler"),
      .mark ">"] := by
  have hName := ((Writes.ofFixed "pub fn " [.word "pub", .word "fn"] rfl).next rfl
    (Writes.word (isWord_of_isDeclarable h.register))).fixed "<H: " [.mark "<", .word "H", .mark ":"]
      (by decide +kernel) rfl
  have hBound := hName.next rfl (Writes.word (isWord_of_isDeclarable h.handler))
  have hAll := hBound.fixed ">" [.mark ">"] (by decide +kernel) (by decide +kernel)
  have hSame : s.registerHead = "pub fn " ++ s.registerName ++ "<H: " ++ (s.name ++ "Handler") ++ ">" := by
    unfold registerHead registerName
    rw [← String.toList_inj]
    simp
  rw [hSame]
  exact hAll

def registerInputs (first second : String) : List Piece :=
  (.word first :: .mark ":" :: .mark "&" :: .word "mut" :: pathPieces ["router", "Engine"])
    ++ Piece.mark "," :: [.word second, .mark ":", .word "H"]

theorem itemForm_register {s : Service} (h : s.Named names) {first second : String} {ps qs : List Piece}
    {attributes : List Attribute} {body : List Stmt} (hFirst : isDeclarable first = true)
    (hSecond : isDeclarable second = true) (hAttributes : AttributesForm ps attributes)
    (hBody : StatementsForm qs body) :
    ∃ item, ItemForm (ps ++ [.word "pub", .word "fn", .word s.registerName, .mark "<", .word "H", .mark ":",
      .word (s.name ++ "Handler"), .mark ">", .group .parenthesis (registerInputs first second), .group .brace qs])
      item := by
  obtain ⟨engine, hEngine⟩ := typeForm_router "Engine" (by decide)
  have hServer : TypeForm [.word "H"] (.type (.path (.mk false [.mk "H" .none]))) := .path (.name false (by decide))
  have hInputs : InputsForm (registerInputs first second) _ :=
    .cons (.typed hFirst (.mutable hEngine)) (.last (.typed hSecond hServer))
  have hParameters := ParametersForm.last (by decide : isDeclarable "H" = true)
    (.bound (.name false (isSegment_of_isDeclarable h.handler)))
  have hFunction := FunctionForm.mk hAttributes .everyone (.mk h.register hParameters hInputs .none) (.defined hBody)
  exact ⟨_, .function (by simpa using hFunction)⟩

theorem phrased_registerNote {s : Service} (h : s.Named names) : Phrased AttributesForm
    [.doc 0 ("Registers the routes of `" ++ s.name ++ "` on `g`, dispatching requests to `h`.")] := by
  have hChars : ∀ c ∈ s.name.toList, isNameChar c = true := fun c =>
    isNameChar_of_mem (Bool.and_eq_true_iff.mp h.name).1
  have hNewline : '\n' ∉ s.name.toList := fun hMem => absurd (hChars _ hMem) (by decide)
  have hReturn : '\r' ∉ s.name.toList := fun hMem => absurd (hChars _ hMem) (by decide)
  exact phrased_docs (List.forall_mem_singleton.mpr ⟨by simp [hNewline], by simp [hReturn]⟩)

/-- A block of its own for each route. -/
theorem leadsOn_routes (errorCode : Int) {endpoints : List Endpoint} (h : ∀ e ∈ endpoints, e.Named names) :
    LeadsOn (endpoints.flatMap fun e =>
      block "\x7b" (code "let h = Arc::clone(&h);" :: e.routeLines names errorCode) "\x7d") := by
  refine .flatMap fun e hE => ?_
  have hBody := fills_clone _ (fills_routeLines errorCode (h e hE)).leadsOn.alone
  obtain ⟨ps, value, hLines, hValue⟩ := exists_block hBody
  have hBlock := @Lined.block [.group .brace ps] _ _ _ _ "\x7b" "\x7d" _ _
    (Writes.ofFixed "\x7b" [.opening .brace] rfl) hLines (Writes.ofFixed "\x7d" [.closing .brace] rfl) (by simp)
  exact (fills_blocky hBlock hValue).leadsOn

theorem phrased_registerLines (errorCode : Int) {s : Service} (h : s.Named names) :
    Phrased ItemsForm (s.registerLines names errorCode) := by
  obtain ⟨ps, attributes, hLead, hAttributes⟩ := phrased_registerNote h
  unfold Service.registerLines
  split
  · obtain ⟨item, hItem⟩ := itemForm_register h (by decide : isDeclarable "_g" = true)
      (by decide : isDeclarable "_h" = true) hAttributes .noStatements
    have hText := h.writes_registerHead.fixed "(_g: &mut router::Engine, _h: H) \x7b\x7d" [.opening .parenthesis,
      .word "_g", .mark ":", .mark "&", .word "mut", .word "router", .mark "::", .word "Engine", .mark ",",
      .word "_h", .mark ":", .word "H", .closing .parenthesis, .opening .brace, .closing .brace] (by decide +kernel) rfl
    have hFound : Phrased ItemForm ([_] ++ [code _]) :=
      ⟨_, _, hLead.append (Lined.code hText (by simp [registerInputs, pathPieces])), hItem⟩
    exact hFound.item
  · have hStart : Fills [code "let h = Arc::new(h);"] := by
      obtain ⟨value, hValue⟩ := operand_call "Arc" ["new"] (by decide) (.last (value_name "h" (by decide)))
      exact fills_bind (Writes.ofFixed "let h = Arc::new(h);" _ (by decide +kernel))
        (.bind (by decide : isDeclarable "h" = true)) (.operand hValue) rfl
    obtain ⟨qs, body, hLines, hBody⟩ := (hStart.leadsOn.append (leadsOn_routes errorCode h.endpoints)).alone
    obtain ⟨item, hItem⟩ := itemForm_register h (by decide : isDeclarable "g" = true)
      (by decide : isDeclarable "h" = true) hAttributes hBody
    have hOpening := h.writes_registerHead.fixed "(g: &mut router::Engine, h: H) \x7b" [.opening .parenthesis,
      .word "g", .mark ":", .mark "&", .word "mut", .word "router", .mark "::", .word "Engine", .mark ",", .word "h",
      .mark ":", .word "H", .closing .parenthesis, .opening .brace] (by decide +kernel) rfl
    have hFound : Phrased ItemForm ([_] ++ block _ _ _) := ⟨_, _, hLead.append (Lined.block hOpening hLines
      (Writes.ofFixed "\x7d" [.closing .brace] rfl) (by simp [registerInputs, pathPieces])), hItem⟩
    exact hFound.item

/-! ## Files -/

def RouterNamed (params : Parameters) : Prop := ∀ s ∈ params.routerSegments, Passes s

structure ApiFile.Named (params : Parameters) (api : ApiFile) : Prop where
  header : HeaderPlain api.file
  router : RouterNamed params
  packages : PackagesNamed params api.names
  services : ∀ s ∈ api.services, s.Named api.names

theorem phrased_routerUse {params : Parameters} (h : RouterNamed params) :
    Phrased ItemsForm [code ("use " ++ params.routerPath ++ ";")] := by
  have hLast := getLast?_routerSegments params
  have hNe : params.routerSegments ≠ [] := List.ne_nil_of_mem (List.mem_of_getLast? hLast)
  obtain ⟨tree, hTree⟩ := useForm_path h hLast (by decide)
  have hPath := (Writes.ofFixed "use " [.word "use"] rfl).next rfl
    (writes_path hNe fun s hMem => (h s hMem).isSegment)
  exact phrased_use (hPath.fixed ";" [.mark ";"] rfl rfl) hTree (by simp [lexemesOf_append])

theorem phrased_bindingUse {params : Parameters} (h : RouterNamed params) :
    Phrased ItemsForm [code ("use " ++ params.routerPath ++ "::binding;")] := by
  have hNe : params.routerSegments ≠ [] := List.ne_nil_of_mem (List.mem_of_getLast? (getLast?_routerSegments params))
  have hName : isDeclarable "binding" = true := by decide
  have hAll : ∀ s ∈ params.routerSegments ++ ["binding"], Passes s :=
    List.forall_mem_append.mpr ⟨h, List.forall_mem_singleton.mpr (passes_of_isDeclarable hName)⟩
  obtain ⟨tree, hTree⟩ := useForm_path hAll List.getLast?_concat hName
  have hPath := (Writes.ofFixed "use " [.word "use"] rfl).next rfl
    (writes_path (List.append_ne_nil_of_left_ne_nil hNe _) fun s hMem => (hAll s hMem).isSegment)
  have hSame : "use " ++ params.routerPath ++ "::binding;"
      = "use " ++ "::".intercalate (params.routerSegments ++ ["binding"]) ++ ";" := by
    rw [intercalate_concat _ _ hNe, Parameters.routerPath, ← String.toList_inj]
    simp
  rw [hSame]
  exact phrased_use (hPath.fixed ";" [.mark ";"] rfl rfl) hTree (by simp [lexemesOf_append])

theorem phrased_apiUses {params : Parameters} {api : ApiFile} (h : api.Named params) :
    Phrased ItemsForm (api.uses params) := by
  have hFixed : Phrased ItemsForm [code "use std::future::Future;", code "use std::sync::Arc;"] := by
    obtain ⟨future, hFuture⟩ := @useForm_path ["std", "future", "Future"] "Future"
      (by decide : ∀ s ∈ ["std", "future", "Future"], isWord s = true ∧ _) rfl (by decide)
    obtain ⟨arc, hArc⟩ := @useForm_path ["std", "sync", "Arc"] "Arc"
      (by decide : ∀ s ∈ ["std", "sync", "Arc"], isWord s = true ∧ _) rfl (by decide)
    have hFirst := phrased_use (Writes.ofFixed "use std::future::Future;" _ (by decide +kernel)) hFuture rfl
    exact hFirst.append .append (phrased_use (Writes.ofFixed "use std::sync::Arc;" _ (by decide +kernel)) hArc rfl)
  unfold ApiFile.uses
  refine .append .append (.append .append (.append .append ?_ ?_) ?_) (phrased_packageUses h.packages)
  · split
    · exact phrased_nothing .nil
    · exact phrased_routerUse h.router
  · split
    · exact phrased_bindingUse h.router
    · exact phrased_nothing .nil
  · split
    · exact phrased_nothing .nil
    · exact hFixed

/-- An API whose names can be declared is formatted. -/
theorem format_of_api {config : Config} {api : ApiFile} (h : api.Named config.params) (name : String) :
    ∃ text, format name (render (api.lines config)) = .ok text := by
  have hBlank : Phrased ItemsForm [.blank] := ⟨[], [], Lined.blank, .nil⟩
  have hBody : Phrased ItemsForm (api.services.flatMap fun service =>
      service.traitLines api.names ++ service.registerLines api.names config.errorCode) :=
    .flatMap .nil .append fun s hS =>
      (phrased_traitLines (h.services s hS)).append .append (phrased_registerLines config.errorCode (h.services s hS))
  have hAll := format_of_items h.header (((phrased_apiUses h).append .append hBlank).append .append hBody) name
  rwa [← List.append_assoc, ← List.append_assoc] at hAll

end ProtoBind.Emit
