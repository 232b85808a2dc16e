import ProtoBind.Proofs.ExpressionGrammar
import ProtoBind.Proofs.PrintedTypes
import ProtoBind.Source.Printer.Expr

/-!
# Printed expressions

However expressions and statements of the grammar are laid out, they are expressions and statements of the
grammar again. An arm of a match may get braces or lose them, and a statement may get a semicolon.
-/

set_option autoImplicit false

namespace ProtoBind.Source

open Layout Text

/-! ## Kinds -/

def SaysReceiver : List Lexeme → Prop := Says fun ps => ∃ value, ExprForm ps (.receiver value)

def SaysOperand : List Lexeme → Prop := Says fun ps => ∃ value, ExprForm ps (.operand value)

def SaysValue : List Lexeme → Prop := Says fun ps => ∃ value, ExprForm ps (.value value)

def SaysBlocky : List Lexeme → Prop := Says fun ps => ∃ value, ExprForm ps (.blocky value)

def SaysArms : List Lexeme → Prop := Says fun ps => ∃ arms, ExprForm ps (.arms arms)

def SaysBody (isEmpty : Bool) : List Lexeme → Prop :=
  Says fun ps => ∃ body, ExprForm ps (.statements body) ∧ body.isEmpty = isEmpty

def SaysCall : List Lexeme → Prop :=
  Says fun ps => ∃ qs values, ps = [.group .parenthesis qs] ∧ ExprForm qs (.arguments values)

def SaysBranch : List Lexeme → Prop :=
  Says fun ps => (∃ qs value, ps = qs ++ [Piece.mark ","] ∧ ExprForm qs (.value value))
    ∨ ∃ value, ExprForm ps (.blocky value)

def ExprPhrase.PrintedFrom : ExprPhrase → Prop
  | .receiver found => ∀ beginsLine, PrintsAs (found.print beginsLine).alone .word SaysReceiver
      ∧ PrintsAs (found.print beginsLine).chained .word SaysReceiver
  | .operand found => ∀ beginsLine, PrintsAs (found.print beginsLine).alone .number SaysOperand
  | .value found => ∀ beginsLine, PrintsAs (found.print beginsLine).alone .number SaysValue
  | .arguments found => ∀ docs ∈ Expr.docs found, PrintsAs docs .number SaysValue
  | .blocky found => (∀ beginsLine, PrintsAs (found.print beginsLine).alone .any SaysBlocky)
      ∧ ∀ frame, Prints frame (found.print true).arm .any .number SaysBranch
  | .arms found => ∀ frame, Prints frame (Arm.docs found) .any .any SaysArms
  | .statements found => (∀ small frame, Prints frame (Stmt.docs small found) .any .any (SaysBody found.isEmpty))
      ∧ ∀ value, found = [.eval value false] → ∀ frame, Prints frame (value.print true).arm .any .number SaysBranch

/-! ## Calls and links -/

theorem saysValues_of_commas {ls : List Lexeme} (h : Commas SaysValue ls) :
    Says (fun ps => ∃ first rest, ExprForm ps (.arguments (first :: rest))) ls :=
  says_of_commas h (fun ⟨_, hForm⟩ => ⟨_, _, .last hForm⟩) (fun ⟨_, hForm⟩ => ⟨_, _, .ended hForm⟩)
    fun ⟨_, hForm⟩ ⟨_, _, hMore⟩ => ⟨_, _, .cons hForm hMore⟩

theorem printsAs_arguments {elements : List Docs} (bare : Bool) (hNe : elements ≠ [])
    (h : ∀ docs ∈ elements, PrintsAs docs .number SaysValue) :
    PrintsAs (argumentsDoc bare elements) .number (Commas SaysValue) := by
  unfold argumentsDoc
  split
  · exact (h _ List.mem_cons_self).imp fun _ => .last
  · exact printsAs_commaList hNe h

def callDoc (arguments : List Expr) : Docs :=
  word "(" ++ argumentsDoc (arguments.all Expr.isBlocklike) (Expr.docs arguments) ++ word ")"

theorem startsWithContent_callDoc (arguments : List Expr) : StartsWithContent (callDoc arguments) :=
  ((startsWithContent_word (by decide)).append _).append _

theorem prints_callDoc {arguments : List Expr} (h : ∀ docs ∈ Expr.docs arguments, PrintsAs docs .number SaysValue)
    (frame : Frame) : Prints frame (callDoc arguments) .word .any SaysCall := by
  have hOpening : Prints frame (word "(") .word .any (· = [.opening .parenthesis]) :=
    prints_fixed frame .word "(" [.opening .parenthesis] rfl rfl
  have hClosing : Prints frame (word ")") .number .any (· = [.closing .parenthesis]) :=
    prints_fixed frame .number ")" [.closing .parenthesis] rfl rfl
  cases arguments with
  | nil =>
    have hDocs : callDoc [] = word "(" ++ word ")" := rfl
    rw [hDocs]
    refine (hOpening.append hClosing.behindAny).imp ?_
    rintro _ ⟨_, _, rfl, rfl, rfl⟩
    exact ⟨_, ⟨[], [], rfl, .noArguments⟩, rfl⟩
  | cons first rest =>
    have hList := printsAs_arguments ((first :: rest).all Expr.isBlocklike) (List.cons_ne_nil _ _) h
    refine ((hOpening.append (hList.prints frame)).append hClosing).imp ?_
    rintro _ ⟨_, _, ⟨_, ls, rfl, hLs, rfl⟩, rfl, rfl⟩
    obtain ⟨ps, ⟨value, values, hForm⟩, rfl⟩ := saysValues_of_commas hLs
    exact ⟨_, ⟨ps, _, rfl, hForm⟩, by simp⟩

theorem prints_boxedCall {arguments : List Expr}
    (h : ∀ docs ∈ Expr.docs arguments, PrintsAs docs .number SaysValue) (frame : Frame) (breaking : Breaking)
    (offset : Int) : Prints frame (box breaking offset (callDoc arguments)) .word .any SaysCall :=
  prints_box frame offset (prints_callDoc h _) (prints_callDoc h _) (startsWithContent_callDoc arguments).ne_break

theorem prints_linkBreak (frame : Frame) (t : Tail) (beginsLine : Bool) (receiver : Expr) :
    Prints frame (linkBreak beginsLine receiver) t t (· = []) := by
  unfold linkBreak
  split
  · exact prints_nil frame t
  · exact prints_zero frame t

/-- A link of a chain behind the point. -/
theorem prints_link {t : Tail} {content : String} {ls : List Lexeme} (frame : Frame) (beginsLine : Bool)
    (receiver : Expr) (hContent : Writes t content.toList ls) (hLine : t ≠ .line) :
    Prints frame (linkBreak beginsLine receiver ++ word ("." ++ content)) .word t (· = .mark "." :: ls) := by
  have hPoint : Writes .any ".".toList [.mark "."] := Writes.mark (by decide)
  refine .behindSilent (prints_linkBreak frame .word beginsLine receiver) ?_
  refine prints_word frame (hPoint.next rfl hContent) hLine ?_
  rw [Tail.goesBefore, String.toList_append]
  rfl

/-! ## Braces -/

theorem prints_left (frame : Frame) : Prints frame (word "\x7b") .number .any (· = [.opening .brace]) :=
  prints_fixed frame .number "\x7b" [.opening .brace] rfl rfl

theorem prints_right (frame : Frame) : Prints frame (word "\x7d") .number .any (· = [.closing .brace]) :=
  prints_fixed frame .number "\x7d" [.closing .brace] rfl rfl

def Braced (kind : List Lexeme → Prop) (ls : List Lexeme) : Prop :=
  ∃ ms, kind ms ∧ ls = .opening .brace :: (ms ++ [.closing .brace])

section

variable {docs : Docs} {kind : List Lexeme → Prop}

theorem prints_braced (h : ∀ frame, Prints frame docs .any .any kind) (frame : Frame) :
    Prints frame (word "\x7b" ++ docs ++ word "\x7d") .any .any (Braced kind) := by
  refine (((prints_left frame).behindAny.append (h frame)).append (prints_right frame).behindAny).imp ?_
  rintro _ ⟨_, _, ⟨_, ms, rfl, hMs, rfl⟩, rfl, rfl⟩
  exact ⟨ms, hMs, by simp⟩

theorem prints_idleHard (frame : Frame) : Prints frame hardIfMore .any .any (· = []) :=
  prints_idle frame .any ⟨rfl, rfl, rfl⟩

/-- Statements or arms between braces. -/
theorem printsAs_bracedDoc (h : ∀ frame, Prints frame docs .any .any kind) :
    PrintsAs (bracedDoc docs) .any (Braced kind) := by
  have hInner : ∀ frame, Prints frame (dedent (hardIfMore ++ docs)) .any .any kind := fun frame =>
    (Prints.behindSilent (prints_idleHard frame) (h frame)).dedent
  have hBox : ∀ frame, Prints frame (indented (dedent (hardIfMore ++ docs))) .any .any kind := by
    intro frame
    by_cases hNone : docs = []
    · subst hNone
      intro page out ls hHolds hLays
      exact h frame hHolds hLays
    · exact prints_box frame _ (hInner _) (hInner _) (dedent_cons_ne_break _ hNone)
  refine ⟨(((startsWithContent_word (by decide)).append _).append _).append _, fun frame => ?_⟩
  have hAll := prints_braced (fun frame => Prints.behindSilent (prints_never frame .any) (hBox frame)) frame
  rwa [← List.append_assoc] at hAll

/-- What stands between a condition and its brace. -/
theorem printsAs_condition (value : Expr) (h : PrintsAs docs .number kind) :
    PrintsAs (conditionDoc value docs) .any kind := by
  have hBefore : ∀ frame, Prints frame (beforeBrace value) .number .any (· = []) := by
    intro frame
    unfold beforeBrace
    split
    · exact prints_space frame .number
    · exact prints_blank frame (by simp)
  exact (h.silent hBefore).boxed .consistent 0

end

/-- Statements between braces that may stand on one line. -/
theorem printsAs_smallBlock {isEmpty : Bool} {docs : Docs}
    (h : ∀ frame, Prints frame docs .any .any (SaysBody isEmpty)) :
    PrintsAs (smallBlockDoc isEmpty docs) .any (Braced (SaysBody isEmpty)) := by
  unfold smallBlockDoc
  split
  · rename_i hEmpty
    refine (printsAs_fixed "\x7b\x7d" [.opening .brace, .closing .brace] rfl (by decide)).imp ?_
    rintro _ rfl
    exact ⟨[], ⟨[], ⟨[], .noStatements, hEmpty.symm⟩, rfl⟩, rfl⟩
  · exact ⟨((startsWithContent_word (by decide)).append _).append _, prints_braced fun frame =>
      (Prints.behindSilent (prints_space frame .any) (h frame)).dedent⟩

theorem saysGroup_of_braced {isEmpty : Bool} {ls : List Lexeme} (h : Braced (SaysBody isEmpty) ls) :
    Says (fun ps => ∃ qs body, ps = [.group .brace qs] ∧ ExprForm qs (.statements body)
      ∧ body.isEmpty = isEmpty) ls := by
  obtain ⟨_, ⟨qs, ⟨body, hForm, hEmpty⟩, rfl⟩, rfl⟩ := h
  exact ⟨[.group .brace qs], ⟨qs, body, rfl, hForm, hEmpty⟩, by simp⟩

theorem saysBlocky_of_braced {ls : List Lexeme} (h : Braced (SaysBody false) ls) : SaysBlocky ls := by
  obtain ⟨_, ⟨qs, body, rfl, hForm, hEmpty⟩, rfl⟩ := saysGroup_of_braced h
  cases body with
  | nil => cases hEmpty
  | cons first rest => exact ⟨_, ⟨_, .block hForm⟩, rfl⟩

/-! ## Arms -/

def markOf (text : String) : List Lexeme := if text = "" then [] else [.mark text]

theorem markOf_or_none {text : String} (h : text ∈ ["", ",", ";"]) :
    text = "" ∧ markOf text = []
      ∨ Writes .any text.toList (markOf text) ∧ Tail.number.goesBefore text = true := by
  simp only [List.mem_cons, List.not_mem_nil, or_false] at h
  rcases h with rfl | rfl | rfl
  · exact .inl ⟨rfl, rfl⟩
  · exact .inr ⟨Writes.mark (by decide), by decide⟩
  · exact .inr ⟨Writes.mark (by decide), by decide⟩

/-- Braces around an expression that is divided, and a mark behind one that is not. -/
theorem prints_bracedIfDivided {value : Expr} {docs : Docs} {kind : List Lexeme → Prop} {otherwise : String}
    (h : PrintsAs docs .number kind) (hOtherwise : otherwise ∈ ["", ",", ";"]) (frame : Frame) :
    Prints frame (bracedIfDivided value docs otherwise) .any .number fun ls => ∃ ms, kind ms
      ∧ (ls = ms ++ markOf otherwise ∨ ls = .opening .brace
        :: (ms ++ markOf (if value.wantsSemicolon then ";" else "") ++ [.closing .brace])) := by
  refine .behindSilent (prints_never frame .any) (prints_box frame _ ?_ ?_ fun place => ?_)
  · have hOpening : Prints none [.brk { before := "\x7b" }] .any .any (· = []) :=
      prints_break_whole ⟨rfl, rfl⟩ (.inl ⟨rfl, rfl⟩)
    refine ((hOpening.behindSilent (h.prints none)).append
      (prints_break_whole ⟨rfl, rfl⟩ (markOf_or_none hOtherwise))).imp ?_
    rintro _ ⟨ms, _, hMs, rfl, rfl⟩
    exact ⟨ms, hMs, .inl rfl⟩
  · have hOpening : Prints (some .consistent) [.brk { before := "\x7b" }] .any .any (· = [.opening .brace] ++ []) :=
      prints_break_divided ⟨rfl, rfl⟩ (.inr ⟨Writes.ofFixed "\x7b" [.opening .brace] rfl, rfl⟩) (.inl ⟨rfl, rfl⟩)
    have hBehind : Writes .any "\x7d".toList [.closing .brace] := Writes.ofFixed "\x7d" [.closing .brace] rfl
    have hSemicolon : (if value.wantsSemicolon then ";" else "") ∈ ["", ",", ";"] := by
      cases value.wantsSemicolon <;> decide
    refine ((hOpening.append (h.prints _)).append ((prints_break_divided ⟨rfl, rfl⟩ (markOf_or_none hSemicolon)
      (.inr ⟨hBehind, show "\x7d" ≠ "" by decide⟩)).weaken .number)).imp ?_
    rintro _ ⟨_, _, ⟨_, ms, rfl, hMs, rfl⟩, rfl, rfl⟩
    exact ⟨ms, hMs, .inr (by simp)⟩
  · obtain ⟨doc, rest, rfl, -⟩ := h.starts
    exact cons_ne_break _ (List.cons_ne_nil _ _) place

theorem value_ends {ps : List Piece} {value : Expr} (h : ExprForm ps (.value value)) :
    value.endsStatement = false ∧ value.shedsSemicolon = false
      ∧ (∀ label body, value ≠ .block label body) := by
  have hReceiver : ∀ {ps : List Piece} {value : Expr}, ExprForm ps (.receiver value) →
      value.endsStatement = false ∧ value.shedsSemicolon = false
        ∧ (∀ label body, value ≠ .block label body) := by
    intro ps value h
    cases h <;> exact ⟨rfl, rfl, fun _ _ => Expr.noConfusion⟩
  cases h with
  | operand h =>
    cases h with
    | receiver h => exact hReceiver h
    | _ => exact ⟨rfl, rfl, fun _ _ => Expr.noConfusion⟩
  | _ => exact ⟨rfl, rfl, fun _ _ => Expr.noConfusion⟩

theorem print_arm {value : Expr} (h : ∀ label body, value ≠ .block label body) (beginsLine : Bool) :
    (value.print beginsLine).arm = bracedIfDivided value (value.print beginsLine).alone
      (if value.needsComma then "," else "") := by
  cases value with
  | block label body => exact absurd rfl (h label body)
  | closure moves inputs output body => cases output <;> (rw [Expr.print]; rfl)
  | _ =>
    rw [Expr.print.eq_def]
    rfl

/-- An expression that ends no statement, as the body of an arm. -/
theorem prints_valueArm {ps : List Piece} {value : Expr} (h : ExprForm ps (.value value))
    (hPrints : PrintsAs (value.print true).alone .number SaysValue)
    (frame : Frame) :
    Prints frame (value.print true).arm .any .number SaysBranch := by
  obtain ⟨hEnds, -, hBlock⟩ := value_ends h
  have hComma : (if value.needsComma then "," else "") = "," := by
    rw [Expr.needsComma, hEnds]
    rfl
  rw [print_arm hBlock, hComma]
  refine (prints_bracedIfDivided hPrints (by decide) frame).imp ?_
  rintro _ ⟨_, ⟨qs, ⟨found, hFound⟩, rfl⟩, rfl | rfl⟩
  · exact ⟨qs ++ [Piece.mark ","], .inl ⟨qs, found, rfl, hFound⟩, by simp [lexemesOf_append, markOf]⟩
  · cases value.wantsSemicolon with
    | true =>
      exact ⟨[.group .brace (qs ++ [Piece.mark ";"])], .inr ⟨_, .block (.run hFound .noStatements)⟩,
        by simp [lexemesOf_append, markOf]⟩
    | false =>
      exact ⟨[.group .brace qs], .inr ⟨_, .block (.result hFound)⟩, by simp [markOf]⟩

/-- An expression that ends a statement, as the body of an arm. -/
theorem prints_blockyArm {ps : List Piece} {value : Expr} (h : ExprForm ps (.blocky value))
    (hBlock : ∀ label body, value ≠ .block label body)
    (hPrints : PrintsAs (value.print true).alone .any SaysBlocky) (frame : Frame) :
    Prints frame (value.print true).arm .any .number SaysBranch := by
  have hComma : (if value.needsComma then "," else "") = "" := by
    rw [Expr.needsComma, blocky_endsStatement h]
    rfl
  have hSemicolon : value.wantsSemicolon = false := by
    cases h <;> rfl
  rw [print_arm hBlock, hComma]
  refine (prints_bracedIfDivided (hPrints.weaken .number) (by decide) frame).imp ?_
  rintro _ ⟨_, ⟨qs, ⟨found, hFound⟩, rfl⟩, rfl | rfl⟩
  · exact ⟨qs, .inr ⟨found, hFound⟩, by simp [markOf]⟩
  · have hBody := ExprForm.blocky hFound .noStatements
    rw [List.append_nil] at hBody
    exact ⟨[.group .brace qs], .inr ⟨_, .block hBody⟩, by simp [markOf, hSemicolon]⟩

/-! ## Expressions -/

theorem printsAs_path {ps : List Piece} {segments : List Segment} (h : TypeForm ps (.segments true segments)) :
    PrintsAs (Path.doc true (.mk false segments)) .word (SaysSegments true) := by
  obtain ⟨-, hPrints, -⟩ := printed_of_typeForm h
  rwa [path_doc]

theorem saysReceiver_of_segments {ls : List Lexeme} (h : SaysSegments true ls) : SaysReceiver ls :=
  h.imp fun _ ⟨_, hForm⟩ => ⟨_, .path hForm⟩

theorem saysReceiver_of_call {ls : List Lexeme} (h : Followed (SaysSegments true) SaysCall ls) :
    SaysReceiver ls := by
  obtain ⟨_, _, ⟨ps, ⟨segments, hForm⟩, rfl⟩, ⟨_, ⟨qs, values, rfl, hValues⟩, rfl⟩, rfl⟩ := h
  exact ⟨_, ⟨_, .call hForm hValues⟩, by simp [lexemesOf_append]⟩

theorem printsAs_call {ps : List Piece} {segments : List Segment} {values : List Expr}
    (h : TypeForm ps (.segments true segments))
    (hValues : ∀ docs ∈ Expr.docs values, PrintsAs docs .number SaysValue) (beginsLine : Bool) :
    PrintsAs ((Expr.call (.path (.mk false segments)) values).print beginsLine).alone .word SaysReceiver
      ∧ PrintsAs ((Expr.call (.path (.mk false segments)) values).print beginsLine).chained .word SaysReceiver := by
  have hPath := printsAs_path h
  have hAlone := ((hPath.append (prints_callDoc hValues)).weaken .word).imp fun _ => saysReceiver_of_call
  have hChained := (((hPath.boxed .consistent (-(step : Int))).append (prints_callDoc hValues)).weaken .word).imp
    fun _ => saysReceiver_of_call
  exact ⟨hAlone, hChained⟩

/-- A receiver with a link behind it. -/
theorem printsAs_chain {value : Expr} {content : String} {t : Tail} {ls : List Lexeme} (beginsLine : Bool)
    (h : PrintsAs (value.print beginsLine).chained .word SaysReceiver) (hContent : Writes t content.toList ls)
    (hLine : t ≠ .line) :
    PrintsAs ((value.print beginsLine).chained ++ linkBreak beginsLine value ++ word ("." ++ content)) t
      (Followed SaysReceiver (· = .mark "." :: ls)) := by
  rw [List.append_assoc]
  exact h.append fun frame => prints_link frame beginsLine value hContent hLine

theorem saysReceiver_of_method {name : String} {ls : List Lexeme} (hName : isDeclarable name = true)
    (h : Followed (Followed SaysReceiver (· = [.mark ".", .word name])) SaysCall ls) : SaysReceiver ls := by
  obtain ⟨_, _, ⟨_, _, ⟨ps, ⟨value, hForm⟩, rfl⟩, rfl, rfl⟩, ⟨_, ⟨qs, values, rfl, hValues⟩, rfl⟩, rfl⟩ := h
  exact ⟨_, ⟨_, .method hForm hName hValues⟩, by simp [lexemesOf_append]⟩

theorem printsAs_method {value : Expr} {name : String} {values : List Expr} (hName : isDeclarable name = true)
    (beginsLine : Bool) (h : PrintsAs (value.print beginsLine).chained .word SaysReceiver)
    (hValues : ∀ docs ∈ Expr.docs values, PrintsAs docs .number SaysValue) :
    PrintsAs ((Expr.method value name [] values).print beginsLine).alone .word SaysReceiver
      ∧ PrintsAs ((Expr.method value name [] values).print beginsLine).chained .word SaysReceiver := by
  have hHead : PrintsAs ((value.print beginsLine).chained ++ linkBreak beginsLine value ++ word ("." ++ name)
      ++ turbofishDoc []) .word (Followed SaysReceiver (· = [.mark ".", .word name])) := by
    have hChain := printsAs_chain beginsLine h (Writes.word (isWord_of_isDeclarable hName)) (by simp)
    rwa [← List.append_nil (_ ++ word ("." ++ name))] at hChain
  have hCall := fun breaking offset => ((hHead.append fun frame =>
    prints_boxedCall hValues frame breaking offset).weaken .word).imp fun _ => saysReceiver_of_method hName
  have hChained : PrintsAs ((Expr.method value name [] values).print beginsLine).chained .word SaysReceiver :=
    hCall .consistent 0
  refine ⟨?_, hChained⟩
  rw [Expr.print]
  refine PrintsAs.boxed ?_ .consistent step
  split
  · exact hCall .consistent (-(step : Int))
  · exact hChained

theorem printsAs_literal {text : String} (h : IsLiteral text) : PrintsAs (word text) .number (· = [.literal text]) := by
  rcases h with hNumber | ⟨content, rfl⟩
  · exact printsAs_number hNumber
  · refine (printsAs_word (Writes.quoted content) (by simp) ?_).number
    simp [String.ext_iff, Quoted.encode_toList]

/-- A field behind a receiver. -/
theorem printsAs_field {value : Expr} {content : String} {t : Tail} {kind : List Lexeme → Prop}
    {ls : List Lexeme} (beginsLine : Bool) (h : PrintsAs (value.print beginsLine).chained .word SaysReceiver)
    (hContent : Writes t content.toList ls) (hLine : t ≠ .line)
    (hKind : ∀ ps value, ExprForm ps (.receiver value) → kind (lexemesOf ps ++ .mark "." :: ls)) :
    PrintsAs ((Expr.field value content).print beginsLine).alone t kind
      ∧ PrintsAs ((Expr.field value content).print beginsLine).chained t kind := by
  have hFollowed : ∀ ms, Followed SaysReceiver (· = .mark "." :: ls) ms → kind ms := by
    rintro _ ⟨_, _, ⟨ps, ⟨found, hForm⟩, rfl⟩, rfl, rfl⟩
    exact hKind ps found hForm
  have hChain := (printsAs_chain beginsLine h hContent hLine).imp hFollowed
  exact ⟨hChain.boxed .consistent step, hChain⟩

theorem printsAs_await {value : Expr} (beginsLine : Bool)
    (h : PrintsAs (value.print beginsLine).chained .word SaysReceiver) :
    PrintsAs ((Expr.await value).print beginsLine).alone .word SaysReceiver
      ∧ PrintsAs ((Expr.await value).print beginsLine).chained .word SaysReceiver := by
  have hFollowed : ∀ ms, Followed SaysReceiver (· = [.mark ".", .word "await"]) ms → SaysReceiver ms := by
    rintro _ ⟨_, _, ⟨ps, ⟨found, hForm⟩, rfl⟩, rfl, rfl⟩
    exact ⟨_, ⟨_, .await hForm⟩, by simp [lexemesOf_append]⟩
  have hAwait : Writes .word "await".toList [.word "await"] := Writes.word (by decide)
  have hChain := (printsAs_chain beginsLine h hAwait (by simp)).imp hFollowed
  exact ⟨hChain.boxed .consistent step, hChain⟩

/-- A mark or word in front of an operand. -/
theorem printsAs_operator (content : String) {docs : Docs} (ls : List Lexeme) {kind : List Lexeme → Prop}
    (hScan : scan content.length content.toList = some ls) (hAny : tailOf content.toList = .any)
    (hNe : content ≠ "") (h : PrintsAs docs .number SaysOperand)
    (hKind : ∀ ps value, ExprForm ps (.operand value) → kind (ls ++ lexemesOf ps)) :
    PrintsAs (word content ++ docs) .number kind := by
  have hLead := printsAs_fixed content ls hScan hNe
  rw [hAny] at hLead
  refine (hLead.append h.prints).imp ?_
  rintro _ ⟨_, _, rfl, ⟨ps, ⟨value, hForm⟩, rfl⟩, rfl⟩
  exact hKind ps value hForm

theorem expr_docs_ne_nil (first : Expr) (rest : List Expr) : Expr.docs (first :: rest) ≠ [] := List.cons_ne_nil _ _

theorem saysOperand_of_commas {ls : List Lexeme} (h : Commas SaysValue ls) :
    SaysOperand (.opening .bracket :: (ls ++ [.closing .bracket])) := by
  obtain ⟨ps, ⟨first, rest, hForm⟩, rfl⟩ := saysValues_of_commas h
  exact ⟨[.group .bracket ps], ⟨_, .array hForm⟩, by simp⟩

theorem printsAs_array {first : Expr} {values : List Expr}
    (h : ∀ docs ∈ Expr.docs (first :: values), PrintsAs docs .number SaysValue) (beginsLine : Bool) :
    PrintsAs ((Expr.array (first :: values)).print beginsLine).alone .number SaysOperand := by
  have hNe := expr_docs_ne_nil first values
  have hOpening := printsAs_fixed "[" [.opening .bracket] rfl (by decide)
  have hClosing : ∀ frame, Prints frame (word "]") .number .any (· = [.closing .bracket]) := fun frame =>
    prints_fixed frame .number "]" [.closing .bracket] rfl rfl
  rw [Expr.print]
  dsimp only [Printed.whole, Printed.both]
  rw [if_neg (by simp)]
  split
  · refine PrintsAs.boxed ?_ .consistent step
    have hElements := (@printsAs_separated _ id _ _ hNe h).boxed .inconsistent 0
    refine ((((hOpening.silent fun frame => prints_zero frame _).append hElements.prints).append
      fun frame => (prints_lastComma frame (by simp)).dedent).append hClosing).weaken .number |>.imp ?_
    rintro _ ⟨_, _, ⟨_, ms, ⟨_, ls, rfl, hLs, rfl⟩, hMs, rfl⟩, rfl, rfl⟩
    have hAll := saysOperand_of_commas (commas_of_separated ⟨ls, ms, hLs, hMs, rfl⟩)
    simpa using hAll
  · refine (((hOpening.append (printsAs_commaList hNe h).prints).append hClosing).weaken .number).imp ?_
    rintro _ ⟨_, _, ⟨_, ls, rfl, hLs, rfl⟩, rfl, rfl⟩
    exact saysOperand_of_commas hLs

theorem printsAs_asyncBlock {body : List Stmt}
    (h : ∀ frame, Prints frame (Stmt.docs true body) .any .any (SaysBody body.isEmpty)) (beginsLine : Bool) :
    PrintsAs ((Expr.asyncBlock true body).print beginsLine).alone .number SaysOperand := by
  have hLead := printsAs_fixed "async move " [.word "async", .word "move"] rfl (by decide)
  refine ((hLead.append ((printsAs_smallBlock h).boxed .consistent step).prints).weaken .number).imp ?_
  rintro _ ⟨_, _, rfl, hLs, rfl⟩
  obtain ⟨_, ⟨qs, found, rfl, hForm, -⟩, rfl⟩ := saysGroup_of_braced hLs
  exact ⟨_, ⟨_, .asyncBlock hForm⟩, rfl⟩

theorem printsAs_closure {name : String} {ps : List Piece} {type : Ty} {body : List Stmt}
    (hName : isDeclarable name = true) (hType : TypeForm ps (.type type))
    (h : ∀ frame, Prints frame (Stmt.docs true body) .any .any (SaysBody body.isEmpty)) (beginsLine : Bool) :
    PrintsAs ((Expr.closure true [.typed (.bind false false name none) type] none (.block none body)).print
      beginsLine).alone .number SaysValue := by
  have hInput : PrintsAs (Pat.doc (.typed (.bind false false name none) type)) .word
      (Followed (· = [.word name, .mark ":"]) SaysType) := by
    rw [Pat.doc, Pat.doc, Pat.innerDoc, List.append_nil]
    refine (((printsAs_name (isWord_of_isDeclarable hName)).append
      fun frame => prints_fixed frame .word ": " [.mark ":"] rfl rfl).append
      (printed_of_typeForm hType : PrintsAs _ _ _).prints).imp ?_
    rintro _ ⟨_, ls, ⟨_, _, rfl, rfl, rfl⟩, hLs, rfl⟩
    exact ⟨_, ls, rfl, hLs, rfl⟩
  have hBar := printsAs_fixed "|" [.mark "|"] rfl (by decide)
  have hLast : ∀ frame, Prints frame (word "|" ++ dedent space) .word .any (· = [.mark "|"]) := fun frame =>
    (prints_fixed frame .word "|" [.mark "|"] rfl rfl).silent (prints_space frame .any).dedent
  have hInputs := (((hBar.silent fun frame => prints_zero frame .any).append hInput.prints).append
    hLast).boxed .consistent step
  have hBody := (printsAs_smallBlock h).boxed .consistent step
  have hLead := printsAs_fixed "move " [.word "move"] rfl (by decide)
  have hDocs : ((Expr.closure true [.typed (.bind false false name none) type] none (.block none body)).print
      beginsLine).alone = filled (word "move "
        ++ indented (word "|" ++ zero ++ Pat.doc (.typed (.bind false false name none) type)
          ++ (word "|" ++ dedent space))
        ++ never ++ indented (smallBlockDoc body.isEmpty (Stmt.docs true body))) := by
    rw [Expr.print, Expr.print]
    simp [Printed.whole, Printed.both, closureInputs, closureLead, Pat.docs, withLast, Expr.isOpenBody,
      Expr.isBlocklike, labelDoc]
  rw [hDocs]
  refine ((((hLead.append hInputs.prints).silent fun frame => prints_never frame .any).append
    hBody.prints).boxed .inconsistent 0).weaken .number |>.imp ?_
  rintro _ ⟨_, _, ⟨_, _, rfl, ⟨_, _, ⟨_, _, rfl, ⟨_, _, rfl, ⟨qs, ⟨found, hFound⟩, rfl⟩, rfl⟩, rfl⟩, rfl, rfl⟩, rfl⟩,
    hLs, rfl⟩
  obtain ⟨_, ⟨rs, stmts, rfl, hForm, -⟩, rfl⟩ := saysGroup_of_braced hLs
  exact ⟨_, ⟨_, .closure hName hFound hForm⟩, by simp [lexemesOf_append]⟩

theorem printsAs_equal {left right : Expr} (hLeft : PrintsAs (left.print false).alone .number SaysOperand)
    (hRight : PrintsAs (right.print false).alone .number SaysOperand) (beginsLine : Bool) :
    PrintsAs ((Expr.binary "==" left right).print beginsLine).alone .number SaysValue := by
  have hOperator : ∀ frame, Prints frame (word "== ") .any .any (· = [.mark "=="]) := fun frame =>
    prints_fixed frame .any "== " [.mark "=="] rfl rfl
  rw [Expr.print]
  refine PrintsAs.boxed ?_ .inconsistent step
  refine ((((hLeft.boxed .inconsistent (-(step : Int))).silent fun frame => prints_space frame _).append
    hOperator).append hRight.prints).imp ?_
  rintro _ ⟨_, _, ⟨_, _, ⟨ps, ⟨left, hLeft⟩, rfl⟩, rfl, rfl⟩, ⟨qs, ⟨right, hRight⟩, rfl⟩, rfl⟩
  exact ⟨_, ⟨_, .equal hLeft hRight⟩, by simp [lexemesOf_append]⟩

theorem printsAs_leave {value : Expr} (h : PrintsAs (value.print false).alone .number SaysValue)
    (beginsLine : Bool) : PrintsAs ((Expr.leave (some value)).print beginsLine).alone .number SaysValue := by
  have hLead := printsAs_fixed "return" [.word "return"] rfl (by decide)
  rw [Expr.print, Expr.optionalDoc]
  dsimp only [Printed.whole, Printed.both]
  rw [← List.append_assoc]
  refine ((hLead.silent fun frame => prints_blank frame (by decide)).append h.prints).imp ?_
  rintro _ ⟨_, _, rfl, ⟨ps, ⟨value, hForm⟩, rfl⟩, rfl⟩
  exact ⟨_, ⟨_, .leave hForm⟩, rfl⟩

theorem printsAs_block {first : Stmt} {body : List Stmt}
    (h : ∀ frame, Prints frame (Stmt.docs true (first :: body)) .any .any (SaysBody false)) (beginsLine : Bool) :
    PrintsAs ((Expr.block none (first :: body)).print beginsLine).alone .any SaysBlocky := by
  have hBody := ((printsAs_smallBlock h).boxed .consistent step).imp fun _ => saysBlocky_of_braced
  rw [Expr.print]
  exact hBody

theorem prints_blockArm {first : Stmt} {body : List Stmt}
    (h : ∀ frame, Prints frame (Stmt.docs false (first :: body)) .any .any (SaysBody false))
    (hOnly : ∀ value, first :: body = [.eval value false] →
      ∀ frame, Prints frame (value.print true).arm .any .number SaysBranch) (frame : Frame) :
    Prints frame ((Expr.block none (first :: body)).print true).arm .any .number SaysBranch := by
  have hBraced : ∀ frame, Prints frame (labelDoc none ++ bracedDoc (Stmt.docs false (first :: body))) .any .number
      SaysBranch := by
    intro frame
    refine (((printsAs_bracedDoc h).prints frame).weaken .number).imp fun ls hLs => ?_
    obtain ⟨ps, ⟨value, hForm⟩, rfl⟩ := saysBlocky_of_braced hLs
    exact ⟨ps, .inr ⟨value, hForm⟩, rfl⟩
  rw [Expr.print]
  dsimp only
  rw [Stmt.armDoc.eq_def]
  dsimp only
  split
  · exact hOnly _ rfl frame
  · rename_i hBody
    have hAll := hBraced frame
    rwa [Stmt.docs, Bool.false_and] at hAll

theorem printsAs_cases {value : Expr} {arms : List Arm}
    (h : PrintsAs (value.print false).alone .number SaysOperand)
    (hArms : ∀ frame, Prints frame (Arm.docs arms) .any .any SaysArms) (beginsLine : Bool) :
    PrintsAs ((Expr.cases value arms).print beginsLine).alone .any SaysBlocky := by
  have hLead := printsAs_fixed "match " [.word "match"] rfl (by decide)
  rw [Expr.print]
  dsimp only [Printed.whole, Printed.both]
  refine PrintsAs.boxed ?_ .inconsistent 0
  refine ((hLead.append (printsAs_condition value h).prints).append (printsAs_bracedDoc hArms).prints).imp ?_
  rintro _ ⟨_, _, ⟨_, _, rfl, ⟨ps, ⟨found, hForm⟩, rfl⟩, rfl⟩, ⟨_, ⟨qs, ⟨found, hFound⟩, rfl⟩, rfl⟩, rfl⟩
  exact ⟨_, ⟨_, .cases hForm hFound⟩, by simp [lexemesOf_append]⟩

theorem printsAs_attempt {pattern : Pat} {value : Expr} {body : List Stmt}
    (hPattern : PrintsAs pattern.doc .number SaysPattern)
    (h : PrintsAs (value.print false).alone .number SaysOperand)
    (hBody : ∀ frame, Prints frame (Stmt.docs false body) .any .any (SaysBody body.isEmpty)) (beginsLine : Bool) :
    PrintsAs ((Expr.ifElse (.attempt pattern value) body none).print beginsLine).alone .any SaysBlocky := by
  have hLet := printsAs_fixed "let " [.word "let"] rfl (by decide)
  have hIf := printsAs_fixed "if " [.word "if"] rfl (by decide)
  have hEqual : ∀ frame, Prints frame (word " = ") .number .any (· = [.mark "="]) := fun frame =>
    prints_fixed frame .number " = " [.mark "="] rfl rfl
  have hCondition := (((((hLet.append (hPattern.boxed .inconsistent 0).prints).append hEqual).silent
    fun frame => prints_never frame .any).append (h.boxed .inconsistent 0).prints).boxed .inconsistent 0)
  have hBlock : ∀ frame, Prints frame (if body.isEmpty then word "\x7b\x7d"
      else word "\x7b" ++ dedent (hard ++ Stmt.docs false body) ++ word "\x7d") .any .any
        (Braced (SaysBody body.isEmpty)) := by
    intro frame
    split
    · rename_i hEmpty
      refine (prints_fixed frame .any "\x7b\x7d" [.opening .brace, .closing .brace] rfl rfl).imp ?_
      rintro _ rfl
      exact ⟨[], ⟨[], ⟨[], .noStatements, hEmpty.symm⟩, rfl⟩, rfl⟩
    · exact prints_braced (fun frame => (Prints.behindSilent (prints_hard frame .any) (hBody frame)).dedent) frame
  rw [Expr.print, Expr.print]
  dsimp only [Printed.whole, Printed.both]
  refine PrintsAs.boxed ?_ .consistent step
  refine ((hIf.append ((printsAs_condition (.attempt pattern value) hCondition).boxed .consistent
    (-(step : Int))).prints).append hBlock).imp ?_
  rintro _ ⟨_, _, ⟨_, _, rfl, ⟨_, _, ⟨_, _, ⟨_, _, rfl, ⟨ps, ⟨found, hFound⟩, rfl⟩, rfl⟩, rfl, rfl⟩,
    ⟨qs, ⟨left, hLeft⟩, rfl⟩, rfl⟩, rfl⟩, hLs, rfl⟩
  obtain ⟨_, ⟨rs, stmts, rfl, hForm, -⟩, rfl⟩ := saysGroup_of_braced hLs
  exact ⟨_, ⟨_, .attempt hFound hLeft hForm⟩, by simp [lexemesOf_append]⟩

/-! ## Arms and statements -/

theorem prints_arm {ps : List Piece} {pattern : Pat} {value : Expr} {arms : List Arm}
    (hPattern : PatternForm ps (.pattern pattern))
    (h : ∀ frame, Prints frame (value.print true).arm .any .number SaysBranch)
    (hRest : ∀ frame, Prints frame (Arm.docs arms) .any .any SaysArms) (frame : Frame) :
    Prints frame (Arm.docs (.mk pattern none value :: arms)) .any .any SaysArms := by
  have hArrow : ∀ frame, Prints frame (word " => ") .number .any (· = [.mark "=>"]) := fun frame =>
    prints_fixed frame .number " => " [.mark "=>"] rfl rfl
  have hLead : PrintsAs pattern.doc .number SaysPattern := printed_of_patternForm hPattern
  rw [Arm.docs, Expr.optionalDoc, List.append_nil]
  refine ((((((hLead.append hArrow).append h).boxed .inconsistent 0).silent fun frame =>
    prints_hard frame .number).append hRest).prints frame).imp ?_
  rintro _ ⟨_, _, ⟨_, _, ⟨_, _, ⟨ps, ⟨found, hFound⟩, rfl⟩, rfl, rfl⟩, ⟨_, hBranch, rfl⟩, rfl⟩,
    ⟨rs, ⟨more, hMore⟩, rfl⟩, rfl⟩
  rcases hBranch with ⟨qs, value, rfl, hValue⟩ | ⟨value, hValue⟩
  · exact ⟨_, ⟨_, .arm hFound hValue hMore⟩, by simp [lexemesOf_append]⟩
  · exact ⟨_, ⟨_, .blockyArm hFound hValue hMore⟩, by simp [lexemesOf_append]⟩

/-- A statement on a line of its own. -/
theorem prints_line {docs : Docs} {t : Tail} {kind : List Lexeme → Prop} (h : PrintsAs docs t kind) (frame : Frame) :
    Prints frame (filled docs ++ hard) .any .any kind :=
  ((h.boxed .inconsistent 0).silent fun frame => prints_hard frame t).prints frame

theorem prints_semicolon (frame : Frame) : Prints frame (word ";") .number .any (· = [.mark ";"]) :=
  prints_fixed frame .number ";" [.mark ";"] rfl rfl

theorem prints_bind {ps : List Piece} {pattern : Pat} {value : Expr} {body : List Stmt} {small : Bool}
    (hPattern : PatternForm ps (.pattern pattern)) (h : PrintsAs (value.print false).alone .number SaysValue)
    (hRest : ∀ frame, Prints frame (Stmt.docs false body) .any .any (SaysBody body.isEmpty)) (frame : Frame) :
    Prints frame (Stmt.docs small (.bind pattern (some value) none :: body)) .any .any (SaysBody false) := by
  have hLead := printsAs_fixed "let " [.word "let"] rfl (by decide)
  have hMiddle : PrintsAs pattern.doc .number SaysPattern := printed_of_patternForm hPattern
  have hEqual : ∀ frame, Prints frame (word " = ") .number .any (· = [.mark "="]) := fun frame =>
    prints_fixed frame .number " = " [.mark "="] rfl rfl
  rw [Stmt.docs, Stmt.doc]
  refine ((prints_line (((((hLead.append hMiddle.prints).append hEqual).silent
    fun frame => prints_never frame .any).append h.prints).append prints_semicolon) frame).append
    (hRest frame)).imp ?_
  rintro _ ⟨_, _, ⟨_, _, ⟨_, _, ⟨_, _, ⟨_, _, rfl, ⟨ps, ⟨found, hFound⟩, rfl⟩, rfl⟩, rfl, rfl⟩,
    ⟨qs, ⟨value, hValue⟩, rfl⟩, rfl⟩, rfl, rfl⟩, ⟨rs, ⟨more, hMore, -⟩, rfl⟩, rfl⟩
  exact ⟨_, ⟨_, .bind hFound hValue hMore, rfl⟩, by simp [lexemesOf_append]⟩

theorem saysBody_of_run {isEmpty : Bool} {ls : List Lexeme}
    (h : Followed (Followed SaysValue (· = [.mark ";"])) (SaysBody isEmpty) ls) : SaysBody false ls := by
  obtain ⟨_, _, ⟨_, _, ⟨ps, ⟨value, hValue⟩, rfl⟩, rfl, rfl⟩, ⟨qs, ⟨more, hMore, -⟩, rfl⟩, rfl⟩ := h
  exact ⟨_, ⟨_, .run hValue hMore, rfl⟩, by simp [lexemesOf_append]⟩

theorem prints_run {ps : List Piece} {value : Expr} {body : List Stmt} {small : Bool}
    (hValue : ExprForm ps (.value value)) (h : PrintsAs (value.print true).alone .number SaysValue)
    (hRest : ∀ frame, Prints frame (Stmt.docs false body) .any .any (SaysBody body.isEmpty)) (frame : Frame) :
    Prints frame (Stmt.docs small (.eval value true :: body)) .any .any (SaysBody false) := by
  obtain ⟨-, hSheds, -⟩ := value_ends hValue
  rw [Stmt.docs, Stmt.doc, hSheds]
  exact ((prints_line (h.append prints_semicolon) frame).append (hRest frame)).imp fun _ => saysBody_of_run

theorem prints_result {value : Expr} {small : Bool}
    (h : PrintsAs (value.print true).alone .number SaysValue) (frame : Frame) :
    Prints frame (Stmt.docs small [.eval value false]) .any .any (SaysBody false) := by
  have hResult : ∀ ls, SaysValue ls → SaysBody false ls :=
    fun ls hLs => hLs.imp fun ps ⟨_, hForm⟩ => ⟨_, .result hForm, rfl⟩
  rw [Stmt.docs, Stmt.docs, List.append_nil, Stmt.doc]
  split
  · exact (((h.boxed .inconsistent 0).silent fun frame => prints_space frame .number).prints frame).imp hResult
  · split
    · have hLine := (prints_line (h.append prints_semicolon) frame).append (prints_nil frame .any)
      rw [List.append_nil] at hLine
      refine hLine.imp fun ls hLs => @saysBody_of_run true _ ?_
      obtain ⟨ms, _, hMs, rfl, rfl⟩ := hLs
      exact ⟨ms, [], hMs, ⟨[], ⟨[], .noStatements, rfl⟩, rfl⟩, rfl⟩
    · have hLine := (prints_line h frame).imp hResult
      rwa [← List.append_nil (value.print true).alone] at hLine

theorem prints_blocky {ps : List Piece} {value : Expr} {body : List Stmt} {small : Bool}
    (hValue : ExprForm ps (.blocky value)) (h : PrintsAs (value.print true).alone .any SaysBlocky)
    (hRest : ∀ frame, Prints frame (Stmt.docs false body) .any .any (SaysBody body.isEmpty)) (frame : Frame) :
    Prints frame (Stmt.docs small (.eval value false :: body)) .any .any (SaysBody false) := by
  have hSemicolon : value.wantsSemicolon = false := by
    cases hValue <;> rfl
  have hLine : Prints frame (Stmt.doc (small && body.isEmpty) (.eval value false)) .any .any SaysBlocky := by
    rw [Stmt.doc, hSemicolon]
    split
    · exact ((h.boxed .inconsistent 0).silent fun frame => prints_space frame .any).prints frame
    · have hLine := prints_line h frame
      rwa [← List.append_nil (value.print true).alone] at hLine
  rw [Stmt.docs]
  refine (hLine.append (hRest frame)).imp ?_
  rintro _ ⟨_, _, ⟨ps, ⟨value, hForm⟩, rfl⟩, ⟨qs, ⟨more, hMore, -⟩, rfl⟩, rfl⟩
  exact ⟨_, ⟨_, .blocky hForm hMore, rfl⟩, by simp [lexemesOf_append]⟩

/-- However the layout of an expression is chosen, it is an expression. -/
theorem printed_of_exprForm {ps : List Piece} {phrase : ExprPhrase} (h : ExprForm ps phrase) :
    phrase.PrintedFrom := by
  induction h with
  | path h =>
    intro beginsLine
    have hPath := (printsAs_path h).imp fun _ => saysReceiver_of_segments
    exact ⟨hPath, hPath.boxed .consistent (-(step : Int))⟩
  | call h _ ih => exact printsAs_call h ih
  | method _ hName _ ih ihArguments =>
    exact fun beginsLine => printsAs_method hName beginsLine (ih beginsLine).2 ihArguments
  | field _ hName ih =>
    intro beginsLine
    refine printsAs_field beginsLine (ih beginsLine).2 (Writes.word (isWord_of_isDeclarable hName)) (by simp) ?_
    exact fun ps value hForm => ⟨_, ⟨_, .field hForm hName⟩, by simp [lexemesOf_append]⟩
  | await _ ih => exact fun beginsLine => printsAs_await beginsLine (ih beginsLine).2
  | receiver _ ih =>
    intro beginsLine
    exact (ih beginsLine).1.number.imp fun ls hLs => hLs.imp fun ps ⟨value, hForm⟩ => ⟨value, .receiver hForm⟩
  | place _ ih =>
    intro beginsLine
    have hPlace : Writes .number "0".toList [.literal "0"] := Writes.number (by decide)
    refine (printsAs_field beginsLine (ih beginsLine).2 hPlace (by simp) ?_).1
    exact fun ps value hForm => ⟨_, ⟨_, .place hForm⟩, by simp [lexemesOf_append]⟩
  | literal hText =>
    intro beginsLine
    refine (printsAs_literal hText).imp ?_
    rintro _ rfl
    exact ⟨_, ⟨_, .literal hText⟩, rfl⟩
  | negative hText =>
    intro beginsLine
    refine ((printsAs_fixed "-" [.mark "-"] rfl (by decide)).append (printsAs_number hText).prints).imp ?_
    rintro _ ⟨_, _, rfl, rfl, rfl⟩
    exact ⟨_, ⟨_, .negative hText⟩, rfl⟩
  | target _ ih =>
    intro beginsLine
    refine printsAs_operator "*" [.mark "*"] rfl rfl (by decide) (ih false) ?_
    exact fun ps value hForm => ⟨_, ⟨_, .target hForm⟩, rfl⟩
  | reference _ ih =>
    intro beginsLine
    refine printsAs_operator "&" [.mark "&"] rfl rfl (by decide) (ih false) ?_
    exact fun ps value hForm => ⟨_, ⟨_, .reference hForm⟩, rfl⟩
  | mutable _ ih =>
    intro beginsLine
    refine printsAs_operator "&mut " [.mark "&", .word "mut"] rfl rfl (by decide) (ih false) ?_
    exact fun ps value hForm => ⟨_, ⟨_, .mutable hForm⟩, rfl⟩
  | array _ ih => exact printsAs_array ih
  | asyncBlock _ ih => exact printsAs_asyncBlock (ih.1 true)
  | closure hName hType _ ih => exact printsAs_closure hName hType (ih.1 true)
  | operand _ ih =>
    intro beginsLine
    exact PrintsAs.imp (ih beginsLine) fun ls hLs => hLs.imp fun ps ⟨value, hForm⟩ => ⟨value, .operand hForm⟩
  | equal _ _ ihLeft ihRight => exact printsAs_equal (ihLeft false) (ihRight false)
  | leave _ ih => exact printsAs_leave (ih false)
  | noArguments => exact fun docs hDocs => absurd hDocs List.not_mem_nil
  | last _ ih => exact List.forall_mem_singleton.mpr (ih false)
  | ended _ ih => exact List.forall_mem_singleton.mpr (ih false)
  | cons _ _ ih ihRest => exact List.forall_mem_cons.mpr ⟨ih false, ihRest⟩
  | block _ ih => exact ⟨printsAs_block (ih.1 true), prints_blockArm (ih.1 false) ih.2⟩
  | cases h hArms ih ihArms =>
    have hAlone := printsAs_cases (ih false) ihArms
    exact ⟨hAlone, prints_blockyArm (.cases h hArms) (fun _ _ => Expr.noConfusion) (hAlone true)⟩
  | attempt hPattern h hBody ih ihBody =>
    have hAlone := printsAs_attempt (printed_of_patternForm hPattern) (ih false) (ihBody.1 false)
    exact ⟨hAlone, prints_blockyArm (.attempt hPattern h hBody) (fun _ _ => Expr.noConfusion) (hAlone true)⟩
  | noArms =>
    intro frame
    refine (prints_nil frame .any).imp ?_
    rintro _ rfl
    exact ⟨[], ⟨[], .noArms⟩, rfl⟩
  | arm hPattern h _ ih ihRest => exact prints_arm hPattern (prints_valueArm h (ih true)) ihRest
  | blockyArm hPattern _ _ ih ihRest => exact prints_arm hPattern ih.2 ihRest
  | noStatements =>
    refine ⟨fun small frame => (prints_nil frame .any).imp ?_, fun value h => by cases h⟩
    rintro _ rfl
    exact ⟨[], ⟨[], .noStatements, rfl⟩, rfl⟩
  | bind hPattern _ _ ih ihRest =>
    exact ⟨fun small => prints_bind hPattern (ih false) (ihRest.1 false), fun value h => by cases h⟩
  | run h _ ih ihRest =>
    exact ⟨fun small => prints_run h (ih true) (ihRest.1 false), fun value h => by cases h⟩
  | result h ih =>
    refine ⟨fun small => prints_result (ih true), fun value hValue => ?_⟩
    cases hValue
    exact prints_valueArm h (ih true)
  | blocky h _ ih ihRest =>
    refine ⟨fun small => prints_blocky h (ih.1 true) (ihRest.1 false), fun value hValue => ?_⟩
    cases hValue
    exact ih.2

end ProtoBind.Source
