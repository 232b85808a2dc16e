import ProtoBind.Proofs.PatternGrammar
import ProtoBind.Source.Parser.Expr
import ProtoBind.Text.Quoted

/-!
# The grammar of expressions

The expressions and statements that emitted source is made of.
-/

set_option autoImplicit false

namespace ProtoBind.Source

open Text ProtoBind.Source.Parser

def IsLiteral (text : String) : Prop := isNumber text = true ∨ ∃ content, text = Quoted.encode content

inductive ExprPhrase where
  /-- What calls, fields and the like may follow. -/
  | receiver (value : Expr)
  /-- What operators may stand beside. -/
  | operand (value : Expr)
  | value (value : Expr)
  /-- Expressions with commas between them. -/
  | arguments (values : List Expr)
  /-- An expression that ends a statement without a semicolon. -/
  | blocky (value : Expr)
  | arms (arms : List Arm)
  | statements (statements : List Stmt)

inductive ExprForm : List Piece → ExprPhrase → Prop where
  | path {ps : List Piece} {segments : List Segment} (h : TypeForm ps (.segments true segments)) :
      ExprForm ps (.receiver (.path (.mk false segments)))
  | call {ps qs : List Piece} {segments : List Segment} {values : List Expr}
      (h : TypeForm ps (.segments true segments)) (hArguments : ExprForm qs (.arguments values)) :
      ExprForm (ps ++ [Piece.group .parenthesis qs])
        (.receiver (.call (.path (.mk false segments)) values))
  | method {ps qs : List Piece} {value : Expr} {name : String} {values : List Expr}
      (h : ExprForm ps (.receiver value)) (hName : isDeclarable name = true)
      (hArguments : ExprForm qs (.arguments values)) :
      ExprForm (ps ++ [Piece.mark ".", .word name, .group .parenthesis qs])
        (.receiver (.method value name [] values))
  | field {ps : List Piece} {value : Expr} {name : String} (h : ExprForm ps (.receiver value))
      (hName : isDeclarable name = true) :
      ExprForm (ps ++ [Piece.mark ".", .word name]) (.receiver (.field value name))
  | await {ps : List Piece} {value : Expr} (h : ExprForm ps (.receiver value)) :
      ExprForm (ps ++ [Piece.mark ".", .word "await"]) (.receiver (.await value))
  | receiver {ps : List Piece} {value : Expr} (h : ExprForm ps (.receiver value)) :
      ExprForm ps (.operand value)
  /-- The only place of a structure without names. -/
  | place {ps : List Piece} {value : Expr} (h : ExprForm ps (.receiver value)) :
      ExprForm (ps ++ [Piece.mark ".", .literal "0"]) (.operand (.field value "0"))
  | literal {text : String} (hText : IsLiteral text) :
      ExprForm [.literal text] (.operand (.literal text))
  | negative {text : String} (hText : isNumber text = true) :
      ExprForm [.mark "-", .literal text] (.operand (.unary "-" (.literal text)))
  | target {ps : List Piece} {value : Expr} (h : ExprForm ps (.operand value)) :
      ExprForm (.mark "*" :: ps) (.operand (.unary "*" value))
  | reference {ps : List Piece} {value : Expr} (h : ExprForm ps (.operand value)) :
      ExprForm (.mark "&" :: ps) (.operand (.reference false value))
  | mutable {ps : List Piece} {value : Expr} (h : ExprForm ps (.operand value)) :
      ExprForm (.mark "&" :: .word "mut" :: ps) (.operand (.reference true value))
  | array {ps : List Piece} {first : Expr} {values : List Expr}
      (h : ExprForm ps (.arguments (first :: values))) :
      ExprForm [.group .bracket ps] (.operand (.array (first :: values)))
  | asyncBlock {ps : List Piece} {body : List Stmt} (h : ExprForm ps (.statements body)) :
      ExprForm [.word "async", .word "move", .group .brace ps] (.operand (.asyncBlock true body))
  | closure {name : String} {ps qs : List Piece} {type : Ty} {body : List Stmt}
      (hName : isDeclarable name = true) (hType : TypeForm ps (.type type))
      (h : ExprForm qs (.statements body)) :
      ExprForm (.word "move" :: .mark "|" :: .word name :: .mark ":"
          :: (ps ++ [Piece.mark "|", .group .brace qs]))
        (.value (.closure true [.typed (.bind false false name none) type] none (.block none body)))
  | operand {ps : List Piece} {value : Expr} (h : ExprForm ps (.operand value)) :
      ExprForm ps (.value value)
  | equal {ps qs : List Piece} {left right : Expr} (hLeft : ExprForm ps (.operand left))
      (hRight : ExprForm qs (.operand right)) :
      ExprForm (ps ++ Piece.mark "==" :: qs) (.value (.binary "==" left right))
  | leave {ps : List Piece} {value : Expr} (h : ExprForm ps (.value value)) :
      ExprForm (.word "return" :: ps) (.value (.leave (some value)))
  | noArguments : ExprForm [] (.arguments [])
  | last {ps : List Piece} {value : Expr} (h : ExprForm ps (.value value)) :
      ExprForm ps (.arguments [value])
  | ended {ps : List Piece} {value : Expr} (h : ExprForm ps (.value value)) :
      ExprForm (ps ++ [Piece.mark ","]) (.arguments [value])
  | cons {ps qs : List Piece} {value next : Expr} {values : List Expr}
      (h : ExprForm ps (.value value)) (hRest : ExprForm qs (.arguments (next :: values))) :
      ExprForm (ps ++ Piece.mark "," :: qs) (.arguments (value :: next :: values))
  | block {ps : List Piece} {first : Stmt} {body : List Stmt}
      (h : ExprForm ps (.statements (first :: body))) :
      ExprForm [.group .brace ps] (.blocky (.block none (first :: body)))
  | cases {ps qs : List Piece} {value : Expr} {arms : List Arm} (h : ExprForm ps (.operand value))
      (hArms : ExprForm qs (.arms arms)) :
      ExprForm (.word "match" :: (ps ++ [Piece.group .brace qs])) (.blocky (.cases value arms))
  | attempt {ps qs rs : List Piece} {pattern : Pat} {value : Expr} {body : List Stmt}
      (hPattern : PatternForm ps (.pattern pattern)) (h : ExprForm qs (.operand value))
      (hBody : ExprForm rs (.statements body)) :
      ExprForm (.word "if" :: .word "let" :: (ps ++ Piece.mark "=" :: (qs ++ [Piece.group .brace rs])))
        (.blocky (.ifElse (.attempt pattern value) body none))
  | noArms : ExprForm [] (.arms [])
  | arm {ps qs rs : List Piece} {pattern : Pat} {value : Expr} {arms : List Arm}
      (hPattern : PatternForm ps (.pattern pattern)) (h : ExprForm qs (.value value))
      (hRest : ExprForm rs (.arms arms)) :
      ExprForm (ps ++ Piece.mark "=>" :: (qs ++ Piece.mark "," :: rs))
        (.arms (.mk pattern none value :: arms))
  | blockyArm {ps qs rs : List Piece} {pattern : Pat} {value : Expr} {arms : List Arm}
      (hPattern : PatternForm ps (.pattern pattern)) (h : ExprForm qs (.blocky value))
      (hRest : ExprForm rs (.arms arms)) :
      ExprForm (ps ++ Piece.mark "=>" :: (qs ++ rs)) (.arms (.mk pattern none value :: arms))
  | noStatements : ExprForm [] (.statements [])
  | bind {ps qs rs : List Piece} {pattern : Pat} {value : Expr} {body : List Stmt}
      (hPattern : PatternForm ps (.pattern pattern)) (h : ExprForm qs (.value value))
      (hRest : ExprForm rs (.statements body)) :
      ExprForm (.word "let" :: (ps ++ Piece.mark "=" :: (qs ++ Piece.mark ";" :: rs)))
        (.statements (.bind pattern (some value) none :: body))
  | run {ps qs : List Piece} {value : Expr} {body : List Stmt} (h : ExprForm ps (.value value))
      (hRest : ExprForm qs (.statements body)) :
      ExprForm (ps ++ Piece.mark ";" :: qs) (.statements (.eval value true :: body))
  | result {ps : List Piece} {value : Expr} (h : ExprForm ps (.value value)) :
      ExprForm ps (.statements [.eval value false])
  | blocky {ps qs : List Piece} {value : Expr} {body : List Stmt} (h : ExprForm ps (.blocky value))
      (hRest : ExprForm qs (.statements body)) :
      ExprForm (ps ++ qs) (.statements (.eval value false :: body))

/-- Whether calls or fields of what stands before these tokens may follow. -/
def endsReceiver (structs : Bool) (rest : List Token) : Bool :=
  clear [':', '!'] (if structs then [.parenthesis, .brace] else [.parenthesis]) rest

def endsOperand (structs : Bool) (rest : List Token) : Bool :=
  clear ['.', '?', ':', '!']
    (if structs then [.parenthesis, .bracket, .brace] else [.parenthesis, .bracket]) rest

def endsValue (structs : Bool) : List Token → Bool
  | [] => true
  | .mark c _ :: _ => c == ',' || c == ';'
  | .group .brace _ :: _ => !structs
  | _ => false

/-- Whether an expression may begin so that does not end a statement by itself. -/
def beginsValue : List Token → Bool
  | .word name :: _ => isSegment name || ["async", "move", "return"].contains name
  | .literal _ :: _ => true
  | .mark c _ :: _ => c == '-' || c == '*' || c == '&'
  | .group .bracket _ :: _ => true
  | _ => false

def ExprPhrase.ParsedFrom (tokens : List Token) : ExprPhrase → Prop
  | .receiver found => ∀ fuel structs rest, 16 * countAll tokens + 8 ≤ fuel →
      endsReceiver structs rest = true →
      ∃ left, fuel ≤ left + countAll tokens
        ∧ unary fuel structs (tokens ++ rest) = trailing left found rest
  | .operand found => ∀ fuel structs rest, 16 * countAll tokens + 10 ≤ fuel →
      endsOperand structs rest = true → unary fuel structs (tokens ++ rest) = some (found, rest)
  | .value found => ∀ fuel structs rest, 16 * countAll tokens + 12 ≤ fuel →
      endsValue structs rest = true → expr fuel structs (tokens ++ rest) = some (found, rest)
  | .arguments found => ∀ fuel, 16 * countAll tokens + 12 ≤ fuel →
      (∀ n, tokens.length < n →
        ∃ ended, commasUpTo (expr fuel true) n tokens = some ((found, ended), []))
      ∧ bracketExpr (fuel + 1) tokens = some (.array found, [])
  | .blocky found => ∀ fuel rest, 16 * countAll tokens + 8 ≤ fuel →
      clear ['.', '?'] [] rest = true → isThatWord "else" rest = false →
      statementExpr fuel (tokens ++ rest) = some (found, rest)
  | .arms found => ∀ fuel, 16 * countAll tokens + 4 ≤ fuel →
      Parser.arms fuel tokens = some (found, [])
  | .statements found => ∀ fuel, 16 * countAll tokens + 16 ≤ fuel →
      Parser.statements fuel tokens = some (found, [])

def ExprPhrase.Parsed (ps : List Piece) (phrase : ExprPhrase) : Prop :=
  ∀ ⦃tokens : List Token⦄, Spelled ps tokens → phrase.ParsedFrom tokens

/-! ## How phrases begin -/

theorem beginsValue_append {tokens : List Token} (h : beginsValue tokens = true) (rest : List Token) :
    beginsValue (tokens ++ rest) = true := by
  cases tokens with
  | nil => cases h
  | cons token tokens =>
    cases token with
    | group delimiter inner => cases delimiter <;> exact h
    | _ => exact h

theorem ne_nil_of_beginsValue {tokens : List Token} (h : beginsValue tokens = true) : tokens ≠ [] := by
  rintro rfl
  cases h

theorem clear_of_beginsValue {tokens : List Token} (h : beginsValue tokens = true) :
    clear [';', ',', '.', '?', '|', '=', ':'] [.brace] tokens = true := by
  match tokens, h with
  | .word name :: _, _ => rfl
  | .literal _ :: _, _ => rfl
  | .mark c _ :: _, h =>
    simp only [beginsValue, Bool.or_eq_true, beq_iff_eq] at h
    obtain (rfl | rfl) | rfl := h <;> rfl
  | .group .bracket _ :: _, _ => rfl

theorem isThatWord_of_beginsValue {tokens : List Token} (h : beginsValue tokens = true) {name : String}
    (hSegment : isSegment name = false) (hWord : ["async", "move", "return"].contains name = false) :
    isThatWord name tokens = false := by
  match tokens, h with
  | .word other :: _, h =>
    rw [isThatWord, beq_eq_false_iff_ne]
    rintro rfl
    rw [beginsValue, hSegment, hWord] at h
    cases h
  | .literal _ :: _, _ => rfl
  | .mark _ _ :: _, _ => rfl
  | .group .bracket _ :: _, _ => rfl

theorem atBlock_of_beginsValue {tokens : List Token} (h : beginsValue tokens = true) :
    atBlock tokens = some (false, tokens) := by
  match tokens, h with
  | .word name :: rest, h =>
    have hWord : ∀ other, isSegment other = false →
        ["async", "move", "return"].contains other = false → name ≠ other := by
      intro other hSegment hOther
      have hNot := isThatWord_of_beginsValue h hSegment hOther
      rwa [isThatWord, beq_eq_false_iff_ne] at hNot
    rw [atBlock]
    · simp [hWord "if" rfl rfl, hWord "match" rfl rfl, hWord "loop" rfl rfl, hWord "while" rfl rfl,
        hWord "for" rfl rfl]
    · intro inner tail _ hName
      exact hWord "unsafe" rfl rfl hName
  | .literal _ :: _, _ => rfl
  | .mark c _ :: _, h =>
    simp only [beginsValue, Bool.or_eq_true, beq_iff_eq] at h
    obtain (rfl | rfl) | rfl := h <;> rfl
  | .group .bracket _ :: _, _ => rfl

theorem atValue_of_beginsValue {tokens : List Token} (h : beginsValue tokens = true) (structs : Bool) :
    atValue structs tokens = some (true, tokens) := by
  match tokens, h with
  | .word name :: _, _ => rfl
  | .literal _ :: _, _ => rfl
  | .mark c _ :: _, h =>
    simp only [beginsValue, Bool.or_eq_true, beq_iff_eq] at h
    obtain (rfl | rfl) | rfl := h <;> rfl
  | .group .bracket _ :: _, _ => rfl

theorem receiver_begins {ps : List Piece} {phrase : ExprPhrase} (h : ExprForm ps phrase) :
    ∀ value, phrase = .receiver value → ∃ name rest, ps = .word name :: rest ∧ isSegment name = true := by
  have hMore : ∀ {ps qs : List Piece}, (∃ name rest, ps = .word name :: rest ∧ isSegment name = true) →
      ∃ name rest, ps ++ qs = .word name :: rest ∧ isSegment name = true := by
    rintro _ qs ⟨name, rest, rfl, hName⟩
    exact ⟨name, rest ++ qs, rfl, hName⟩
  induction h with
  | path h =>
    intro _ _
    exact h.segments_begin
  | call h _ _ =>
    intro _ _
    exact hMore h.segments_begin
  | method _ _ _ ih _ =>
    intro _ _
    exact hMore (ih _ rfl)
  | field _ _ ih =>
    intro _ _
    exact hMore (ih _ rfl)
  | await _ ih =>
    intro _ _
    exact hMore (ih _ rfl)
  | _ =>
    intro _ h
    cases h

theorem operand_begins {ps : List Piece} {value : Expr} {tokens : List Token}
    (h : ExprForm ps (.operand value)) (hSpelled : Spelled ps tokens) : beginsValue tokens = true := by
  cases h with
  | receiver h =>
    obtain ⟨name, rest, rfl, hName⟩ := receiver_begins h _ rfl
    obtain ⟨back, rfl, -⟩ := spelled_word hSpelled
    rw [beginsValue, hName, Bool.true_or]
  | place h =>
    obtain ⟨front, back, rfl, hFront, -⟩ := spelled_append hSpelled
    obtain ⟨name, rest, rfl, hName⟩ := receiver_begins h _ rfl
    obtain ⟨front, rfl, -⟩ := spelled_word hFront
    rw [List.cons_append, beginsValue, hName, Bool.true_or]
  | literal _ =>
    obtain ⟨back, rfl, -⟩ := spelled_literal hSpelled
    rfl
  | negative _ =>
    obtain ⟨joined, back, rfl, -⟩ := spelled_one '-' rfl hSpelled
    rfl
  | target _ =>
    obtain ⟨joined, back, rfl, -⟩ := spelled_one '*' rfl hSpelled
    rfl
  | reference _ =>
    obtain ⟨joined, back, rfl, -⟩ := spelled_one '&' rfl hSpelled
    rfl
  | mutable _ =>
    obtain ⟨joined, back, rfl, -⟩ := spelled_one '&' rfl hSpelled
    rfl
  | array _ =>
    obtain ⟨within, back, rfl, -, -⟩ := spelled_group hSpelled
    rfl
  | asyncBlock _ =>
    obtain ⟨back, rfl, -⟩ := spelled_word hSpelled
    rfl

theorem value_begins {ps : List Piece} {value : Expr} {tokens : List Token}
    (h : ExprForm ps (.value value)) (hSpelled : Spelled ps tokens) : beginsValue tokens = true := by
  cases h with
  | closure _ _ _ =>
    obtain ⟨back, rfl, -⟩ := spelled_word hSpelled
    rfl
  | operand h => exact operand_begins h hSpelled
  | equal hLeft _ =>
    obtain ⟨front, back, rfl, hFront, -⟩ := spelled_append hSpelled
    exact beginsValue_append (operand_begins hLeft hFront) _
  | leave _ =>
    obtain ⟨back, rfl, -⟩ := spelled_word hSpelled
    rfl

theorem blocky_begins {ps : List Piece} {value : Expr} {tokens : List Token}
    (h : ExprForm ps (.blocky value)) (hSpelled : Spelled ps tokens) (rest : List Token) :
    tokens ≠ [] ∧ clear [';', ',', '.', '?'] [] (tokens ++ rest) = true
      ∧ isThatWord "else" (tokens ++ rest) = false ∧ isThatWord "let" (tokens ++ rest) = false := by
  cases h with
  | block _ =>
    obtain ⟨within, back, rfl, -, -⟩ := spelled_group hSpelled
    exact ⟨List.cons_ne_nil _ _, rfl, rfl, rfl⟩
  | cases _ _ =>
    obtain ⟨back, rfl, -⟩ := spelled_word hSpelled
    exact ⟨List.cons_ne_nil _ _, rfl, rfl, rfl⟩
  | attempt _ _ _ =>
    obtain ⟨back, rfl, -⟩ := spelled_word hSpelled
    exact ⟨List.cons_ne_nil _ _, rfl, rfl, rfl⟩

/-- What follows a block does not go on with it. -/
theorem statements_begin {ps : List Piece} {body : List Stmt} {tokens : List Token}
    (h : ExprForm ps (.statements body)) (hSpelled : Spelled ps tokens) :
    clear [';', ',', '.', '?'] [] tokens = true ∧ isThatWord "else" tokens = false := by
  have hValue : ∀ {tokens : List Token}, beginsValue tokens = true →
      clear [';', ',', '.', '?'] [] tokens = true ∧ isThatWord "else" tokens = false := by
    intro tokens h
    exact ⟨clear_mono (clear_of_beginsValue h) (by simp) (by simp), isThatWord_of_beginsValue h rfl rfl⟩
  cases h with
  | noStatements =>
    cases hSpelled
    exact ⟨rfl, rfl⟩
  | bind _ _ _ =>
    obtain ⟨back, rfl, -⟩ := spelled_word hSpelled
    exact ⟨rfl, rfl⟩
  | run h _ =>
    obtain ⟨front, back, rfl, hFront, -⟩ := spelled_append hSpelled
    exact hValue (beginsValue_append (value_begins h hFront) back)
  | result h => exact hValue (value_begins h hSpelled)
  | blocky h _ =>
    obtain ⟨front, back, rfl, hFront, -⟩ := spelled_append hSpelled
    obtain ⟨-, hClear, hElse, -⟩ := blocky_begins h hFront back
    exact ⟨hClear, hElse⟩

theorem arguments_begin {ps : List Piece} {first : Expr} {values : List Expr} {tokens : List Token}
    (h : ExprForm ps (.arguments (first :: values))) (hSpelled : Spelled ps tokens) :
    beginsValue tokens = true := by
  cases h with
  | last h => exact value_begins h hSpelled
  | ended h =>
    obtain ⟨front, back, rfl, hFront, -⟩ := spelled_append hSpelled
    exact beginsValue_append (value_begins h hFront) back
  | cons h _ =>
    obtain ⟨front, back, rfl, hFront, -⟩ := spelled_append hSpelled
    exact beginsValue_append (value_begins h hFront) back

theorem arms_begin {ps : List Piece} {arms : List Arm} {tokens : List Token}
    (h : ExprForm ps (.arms arms)) (hSpelled : Spelled ps tokens) :
    clear ['|', ',', '.', '?'] [] tokens = true ∧ isThatWord "else" tokens = false := by
  cases h with
  | noArms =>
    cases hSpelled
    exact ⟨rfl, rfl⟩
  | arm hPattern _ _ =>
    obtain ⟨front, back, rfl, hFront, -⟩ := spelled_append hSpelled
    exact ⟨(hPattern.begins hFront).2 back, hPattern.begins_no_branch hFront back⟩
  | blockyArm hPattern _ _ =>
    obtain ⟨front, back, rfl, hFront, -⟩ := spelled_append hSpelled
    exact ⟨(hPattern.begins hFront).2 back, hPattern.begins_no_branch hFront back⟩

/-! ## Runs -/

theorem run_unary_word {name : String} (fuel : Nat) (structs : Bool) (rest : List Token) :
    unary (fuel + 1) structs (.word name :: rest)
      = andThen (atom fuel structs (.word name :: rest)) (trailing fuel) := by
  rw [unary]
  rfl

theorem run_unary_literal {text : String} (fuel : Nat) (structs : Bool) (rest : List Token) :
    unary (fuel + 2) structs (.literal text :: rest) = trailing (fuel + 1) (.literal text) rest := by
  rw [unary, atom]
  simp [isLifetime]

theorem run_atom_word {name : String} (hName : isSegment name = true) (fuel : Nat) (structs : Bool)
    (rest : List Token) :
    atom (fuel + 1) structs (.word name :: rest) = pathExpr fuel structs (.word name :: rest) := by
  have hWord : ∀ other, isSegment other = false → name ≠ other := fun _ h => ne_of_isSegment hName h
  rw [atom]
  simp [isLifetime]
  split <;> first | rfl | exact absurd rfl (hWord _ rfl)

theorem endsOperand_of_endsValue {structs : Bool} {rest : List Token}
    (h : endsValue structs rest = true) : endsOperand structs rest = true := by
  match rest, h with
  | [], _ => rfl
  | .mark c _ :: _, h =>
    rw [endsValue, Bool.or_eq_true, beq_iff_eq, beq_iff_eq] at h
    obtain rfl | rfl := h <;> cases structs <;> rfl
  | .group .brace _ :: _, h =>
    cases structs with
    | true => cases h
    | false => rfl

theorem run_trailing_end {fuel : Nat} {found : Expr} {structs : Bool} {rest : List Token}
    (h : endsOperand structs rest = true) : trailing (fuel + 1) found rest = some (found, rest) := by
  have hQuestion : afterMarks ['?'] rest = none := afterMarks_of_clear h rfl []
  have hPoint : afterMarks ['.'] rest = none := afterMarks_of_clear h rfl []
  have hCall : isGroup .parenthesis rest = false := isGroup_of_clear h (by cases structs <;> rfl)
  have hIndex : isGroup .bracket rest = false := isGroup_of_clear h (by cases structs <;> rfl)
  rw [trailing]
  simp [hCall, hIndex, eatMark, hQuestion, hPoint]

theorem run_operator_end {structs : Bool} {rest : List Token} (h : endsValue structs rest = true) :
    operator? rest = some (none, rest) := by
  match rest, h with
  | [], _ => simp [operator?, operators]
  | .mark c _ :: _, h =>
    rw [endsValue, Bool.or_eq_true, beq_iff_eq, beq_iff_eq] at h
    obtain rfl | rfl := h <;> simp [operator?, operators]
  | .group .brace _ :: _, _ => simp [operator?, operators]

theorem clear_of_endsValue {structs : Bool} {rest : List Token} (h : endsValue structs rest = true) :
    clear ['=', '.', '?', '|'] [] rest = true ∧ isThatWord "as" rest = false := by
  match rest, h with
  | [], _ => exact ⟨rfl, rfl⟩
  | .mark c _ :: _, h =>
    rw [endsValue, Bool.or_eq_true, beq_iff_eq, beq_iff_eq] at h
    obtain rfl | rfl := h <;> exact ⟨rfl, rfl⟩
  | .group .brace _ :: _, _ => exact ⟨rfl, rfl⟩

theorem run_exprFrom_end {fuel least : Nat} {found : Expr} {structs : Bool} {rest : List Token}
    (h : endsValue structs rest = true) : exprFrom (fuel + 1) structs least found rest = some (found, rest) := by
  obtain ⟨hClear, hAs⟩ := clear_of_endsValue h
  have hEqual := afterMarks_of_clear hClear (c := '=') rfl
  have hPoint := afterMarks_of_clear hClear (c := '.') rfl
  rw [exprFrom]
  simp [run_operator_end h, atAssignment, hEqual, hPoint, hAs]

theorem run_operandFrom_end {fuel least : Nat} {found : Expr} {structs : Bool} {rest : List Token}
    (hLeast : least ≠ 0) (h : endsValue structs rest = true) :
    operandFrom (fuel + 1) structs least found rest = some (found, rest) := by
  obtain ⟨hClear, hAs⟩ := clear_of_endsValue h
  have hEqual := afterMarks_of_clear hClear (c := '=') rfl
  have hPoint := afterMarks_of_clear hClear (c := '.') rfl
  rw [operandFrom]
  simp [nextPrecedence, run_operator_end h, atAssignment, hEqual, hPoint, hAs]
  intro hZero
  exact absurd hZero.symm hLeast

/-! ## Receivers -/

theorem run_pathExpr {tokens rest : List Token} {found : List Segment} {structs : Bool} {fuel : Nat}
    (hStart : ∃ name more, tokens = .word name :: more ∧ isSegment name = true)
    (h : TypePhrase.ParsedFrom tokens (.segments true found)) (hFuel : 16 * countAll tokens + 6 ≤ fuel)
    (hClear : clear [':', '!'] (if structs then [.brace] else []) rest = true) :
    pathExpr fuel structs (tokens ++ rest) = some (.path (.mk false found), rest) := by
  obtain ⟨fuel, rfl⟩ : ∃ f, fuel = f + 2 := ⟨fuel - 2, by omega⟩
  have hFound := h fuel rest (by omega) (clear_mono hClear (by simp [pathMarks]) (by simp [pathGroups]))
  have hBang := afterMarks_of_clear hClear (c := '!') rfl
  have hBrace : structs = true → isGroup .brace rest = false := by
    rintro rfl
    exact isGroup_of_clear hClear rfl
  obtain ⟨name, more, rfl, -⟩ := hStart
  rw [List.cons_append] at hFound
  rw [List.cons_append, pathExpr, Parser.path]
  simp only [run_bind, eatMark]
  cases structs with
  | false => simp [hFound, hBang]
  | true => simp [hFound, hBang, hBrace]

theorem run_receiver_path {tokens rest : List Token} {found : List Segment} {structs : Bool} {fuel : Nat}
    (hStart : ∃ name more, tokens = .word name :: more ∧ isSegment name = true)
    (h : TypePhrase.ParsedFrom tokens (.segments true found)) (hFuel : 16 * countAll tokens + 8 ≤ fuel + 1)
    (hClear : clear [':', '!'] (if structs then [.brace] else []) rest = true) :
    unary (fuel + 1) structs (tokens ++ rest) = trailing fuel (.path (.mk false found)) rest := by
  obtain ⟨fuel, rfl⟩ : ∃ f, fuel = f + 1 := ⟨fuel - 1, by omega⟩
  have hPath := run_pathExpr hStart h (show 16 * countAll tokens + 6 ≤ fuel by omega) hClear
  obtain ⟨name, more, rfl, hName⟩ := hStart
  rw [List.cons_append] at hPath
  rw [List.cons_append, run_unary_word, run_atom_word hName, hPath]
  rfl

theorem run_trailing_call {inner rest : List Token} {value : Expr} {values : List Expr} {ended : Bool}
    {fuel : Nat}
    (h : commasUpTo (expr fuel true) (inner.length + 1) inner = some ((values, ended), [])) :
    trailing (fuel + 1) value (.group .parenthesis inner :: rest)
      = trailing fuel (.call value values) rest := by
  have hGroup : inGroup .parenthesis (commas (expr fuel true)) (.group .parenthesis inner :: rest)
      = some ((values, ended), rest) := run_inGroup h rest
  rw [trailing]
  simp [hGroup]

theorem run_trailing_method {inner rest : List Token} {value : Expr} {name : String}
    {values : List Expr} {ended joined : Bool} {fuel : Nat} (hRange : isRange value = false)
    (hName : isName name = true)
    (h : commasUpTo (expr fuel true) (inner.length + 1) inner = some ((values, ended), [])) :
    trailing (fuel + 1) value (.mark '.' joined :: .word name :: .group .parenthesis inner :: rest)
      = trailing fuel (.method value name [] values) rest := by
  have hGroup : inGroup .parenthesis (commas (expr fuel true)) (.group .parenthesis inner :: rest)
      = some ((values, ended), rest) := run_inGroup h rest
  have hAwait : name ≠ "await" := ne_of_isName hName rfl
  rw [trailing]
  cases joined <;> simp [eatMark, mark, hRange, hAwait, run_name hName,
    atTurbofish, hGroup]

theorem run_trailing_field {rest : List Token} {value : Expr} {name : String} {joined : Bool}
    {fuel : Nat} (hRange : isRange value = false) (hName : isName name = true)
    (hClear : clear [':'] [.parenthesis] rest = true) :
    trailing (fuel + 1) value (.mark '.' joined :: .word name :: rest)
      = trailing fuel (.field value name) rest := by
  have hAwait : name ≠ "await" := ne_of_isName hName rfl
  have hColons := afterMarks_of_clear hClear (c := ':') rfl
  have hGroup : isGroup .parenthesis rest = false := isGroup_of_clear hClear rfl
  rw [trailing]
  cases joined <;> simp [eatMark, mark, hRange, hAwait, run_name hName,
    atTurbofish, hGroup, hColons]

theorem run_trailing_place {rest : List Token} {value : Expr} {joined : Bool} {fuel : Nat}
    (hRange : isRange value = false) :
    trailing (fuel + 1) value (.mark '.' joined :: .literal "0" :: rest)
      = trailing fuel (.field value "0") rest := by
  have hPlaces : tuplePlaces "0" = ["0"] := by decide
  rw [trailing]
  cases joined <;> simp [eatMark, mark, hRange, hPlaces]

theorem run_trailing_await {rest : List Token} {value : Expr} {joined : Bool} {fuel : Nat}
    (hRange : isRange value = false) :
    trailing (fuel + 1) value (.mark '.' joined :: .word "await" :: rest)
      = trailing fuel (.await value) rest := by
  rw [trailing]
  cases joined <;> simp [eatMark, mark, hRange]

theorem receiver_isRange {ps : List Piece} {value : Expr} (h : ExprForm ps (.receiver value)) :
    isRange value = false := by
  cases h <;> rfl

theorem run_expr {tokens rest : List Token} {found : Expr} {structs : Bool} {fuel : Nat}
    (h : unary (fuel + 1) structs (tokens ++ rest) = some (found, rest))
    (hEnd : endsValue structs rest = true) :
    expr (fuel + 2) structs (tokens ++ rest) = some (found, rest) := by
  rw [expr]
  simp [h, run_exprFrom_end hEnd]

theorem run_unary_group (delimiter : Delimiter) (fuel : Nat) (structs : Bool) (inner rest : List Token) :
    unary (fuel + 1) structs (.group delimiter inner :: rest)
      = andThen (atom fuel structs (.group delimiter inner :: rest)) (trailing fuel) := by
  rw [unary]
  rfl

theorem run_reference {tokens rest : List Token} {found : Expr} {structs joined : Bool} {fuel : Nat}
    (hBegins : beginsValue tokens = true)
    (h : unary fuel structs (tokens ++ rest) = some (found, rest)) :
    unary (fuel + 1) structs (.mark '&' joined :: (tokens ++ rest)) = some (.reference false found, rest) := by
  have hMut : isThatWord "mut" (tokens ++ rest) = false :=
    isThatWord_of_beginsValue (beginsValue_append hBegins rest) rfl rfl
  rw [unary]
  simp [mark, run_eatWord_false hMut, h]

theorem run_mutable {tokens rest : List Token} {found : Expr} {structs joined : Bool} {fuel : Nat}
    (h : unary fuel structs (tokens ++ rest) = some (found, rest)) :
    unary (fuel + 1) structs (.mark '&' joined :: .word "mut" :: (tokens ++ rest))
      = some (.reference true found, rest) := by
  rw [unary]
  simp [mark, h]

theorem run_target {tokens rest : List Token} {found : Expr} {structs joined : Bool} {fuel : Nat}
    (h : unary fuel structs (tokens ++ rest) = some (found, rest)) :
    unary (fuel + 1) structs (.mark '*' joined :: (tokens ++ rest)) = some (.unary "*" found, rest) := by
  rw [unary]
  simp [mark, h]

theorem run_negative {tokens rest : List Token} {found : Expr} {structs joined : Bool} {fuel : Nat}
    (h : unary fuel structs (tokens ++ rest) = some (found, rest)) :
    unary (fuel + 1) structs (.mark '-' joined :: (tokens ++ rest)) = some (.unary "-" found, rest) := by
  rw [unary]
  simp [mark, h]

theorem run_array {inner rest : List Token} {values : List Expr} {structs : Bool} {fuel : Nat}
    (h : bracketExpr (fuel + 1) inner = some (.array values, []))
    (hEnd : endsOperand structs rest = true) :
    unary (fuel + 3) structs (.group .bracket inner :: rest) = some (.array values, rest) := by
  rw [run_unary_group, atom]
  simp [isLifetime, run_inGroup h, run_trailing_end hEnd]

theorem run_asyncBlock {inner rest : List Token} {found : List Stmt} {structs : Bool} {fuel : Nat}
    (h : Parser.statements fuel inner = some (found, [])) (hEnd : endsOperand structs rest = true) :
    unary (fuel + 3) structs (.word "async" :: .word "move" :: .group .brace inner :: rest)
      = some (.asyncBlock true found, rest) := by
  rw [run_unary_word, atom]
  simp [isLifetime, body, run_inGroup h, run_trailing_end hEnd]

theorem run_block {inner rest : List Token} {found : List Stmt} {structs : Bool} {fuel : Nat}
    (h : Parser.statements fuel inner = some (found, [])) :
    atom (fuel + 3) structs (.group .brace inner :: rest) = some (.block none found, rest) := by
  rw [atom]
  simp [isLifetime, labelled, body, run_inGroup h]

theorem run_pattern_colon {name : String} {joined : Bool} {more : List Token} {fuel : Nat}
    (hName : isName name = true) (hMore : afterMarks [':'] more = none) :
    Parser.pattern (fuel + 2) (.word name :: .mark ':' joined :: more)
      = some (.bind false false name none, .mark ':' joined :: more) := by
  have hEnd : endsPattern (.mark ':' joined :: more) = true := by
    cases joined <;> simp [endsPattern, clear, hMore]
  have hAt : afterMarks ['@'] (.mark ':' joined :: more) = none := afterMarks_other (by decide) _ _ _
  rw [run_pattern_word hName, atBinding_of_ends hName hEnd]
  exact run_binding hName hEnd

theorem run_typedPattern {name : String} {joined : Bool} {more rest : List Token} {type : Ty}
    {fuel : Nat} (hName : isName name = true) (hMore : afterMarks [':'] more = none)
    (hType : ty (fuel + 2) true more = some (type, rest)) :
    typedPattern (fuel + 2) (.word name :: .mark ':' joined :: more)
      = some (.typed (.bind false false name none) type, rest) := by
  rw [typedPattern]
  simp [run_pattern_colon hName hMore, eatMark, hType]

theorem run_closure {name : String} {front inner rest : List Token} {type : Ty} {found : List Stmt}
    {structs first second third : Bool} {fuel : Nat} (hName : isName name = true)
    (hFront : ∀ rest, afterMarks [':'] (front ++ rest) = none)
    (hType : ∀ rest, clear [':', '<'] [.parenthesis] rest = true →
      ty (fuel + 6) true (front ++ rest) = some (type, rest))
    (h : Parser.statements (fuel + 1) inner = some (found, [])) (hEnd : endsValue structs rest = true) :
    expr (fuel + 10) structs (.word "move" :: .mark '|' first :: .word name :: .mark ':' second
        :: (front ++ Token.mark '|' third :: .group .brace inner :: rest))
      = some (.closure true [.typed (.bind false false name none) type] none (.block none found), rest) := by
  have hInput := @run_typedPattern _ second _ _ _ _ hName
    (hFront (.mark '|' third :: .group .brace inner :: rest)) (hType _ rfl)
  have hBlock : expr (fuel + 6) structs (.group .brace inner :: rest) = some (.block none found, rest) := by
    rw [expr, run_bind, run_unary_group, run_block h]
    simp [run_trailing_end (endsOperand_of_endsValue hEnd), run_exprFrom_end hEnd]
  have hClosure : closure (fuel + 7) structs true (.mark '|' first :: .word name :: .mark ':' second
        :: (front ++ Token.mark '|' third :: .group .brace inner :: rest))
      = some (.closure true [.typed (.bind false false name none) type] none (.block none found),
          rest) := by
    rw [Parser.closure]
    simp [mark, commasBefore, commasBeforeUpTo, hInput, eatMark, hBlock]
  rw [expr, run_bind, run_unary_word, atom]
  simp [isLifetime, hClosure, run_trailing_end (endsOperand_of_endsValue hEnd), run_exprFrom_end hEnd]

/-! ## Operators -/

theorem operand_mayFollow {ps : List Piece} {value : Expr} (h : ExprForm ps (.operand value))
    (precedence : Precedence) : mayFollow value precedence = true := by
  cases h with
  | receiver h => cases h <;> rfl
  | _ => rfl

theorem run_operator_equal (joined : Bool) (rest : List Token) :
    operator? (.mark '=' true :: .mark '=' joined :: rest)
      = some (some ("==", Precedence.comparison), .mark '=' true :: .mark '=' joined :: rest) := by
  simp [operator?, operators]

theorem run_equal {front back rest : List Token} {left right : Expr} {structs joined : Bool}
    {fuel : Nat} (hFollow : ∀ precedence, mayFollow left precedence = true)
    (hLeft : unary (fuel + 4) structs (front ++ Token.mark '=' true :: .mark '=' joined :: (back ++ rest))
      = some (left, .mark '=' true :: .mark '=' joined :: (back ++ rest)))
    (hRight : unary (fuel + 2) structs (back ++ rest) = some (right, rest))
    (hEnd : endsValue structs rest = true) :
    expr (fuel + 5) structs (front ++ Token.mark '=' true :: .mark '=' joined :: (back ++ rest))
      = some (.binary "==" left right, rest) := by
  have hOperand : operand (fuel + 3) structs Precedence.comparison (back ++ rest) = some (right, rest) := by
    rw [operand]
    simp [hRight, run_operandFrom_end (show Precedence.comparison ≠ 0 by decide) hEnd]
  rw [expr]
  simp only [run_bind, hLeft, andThen_some]
  rw [exprFrom]
  have hLess : ¬ Precedence.comparison < Precedence.assignment := by decide
  have hNe : Precedence.comparison ≠ Precedence.assignment := by decide
  simp [run_operator_equal, hFollow, mark, hOperand, run_exprFrom_end hEnd, hLess, hNe]

theorem run_leave {tokens rest : List Token} {value : Expr} {structs : Bool} {fuel : Nat}
    (hBegins : beginsValue tokens = true)
    (h : expr (fuel + 1) structs (tokens ++ rest) = some (value, rest))
    (hEnd : endsValue structs rest = true) :
    expr (fuel + 4) structs (.word "return" :: (tokens ++ rest)) = some (.leave (some value), rest) := by
  have hValue := atValue_of_beginsValue (beginsValue_append hBegins rest) structs
  rw [expr, run_bind, run_unary_word, atom]
  simp [isLifetime, hValue, h, run_trailing_end (endsOperand_of_endsValue hEnd), run_exprFrom_end hEnd]

/-! ## Blocks, arms and statements -/

theorem run_statementExpr_block {tokens rest : List Token} {found : Expr} {fuel : Nat}
    (hBlock : atBlock (tokens ++ rest) = some (true, tokens ++ rest))
    (h : atom fuel true (tokens ++ rest) = some (found, rest))
    (hClear : clear ['.', '?'] [] rest = true) :
    statementExpr (fuel + 1) (tokens ++ rest) = some (found, rest) := by
  have hPoint := afterMarks_of_clear hClear (c := '.') rfl
  have hQuestion := afterMarks_of_clear hClear (c := '?') rfl
  rw [statementExpr]
  simp [hBlock, h, hPoint, hQuestion]

theorem run_statementExpr_value {tokens rest : List Token} {found : Expr} {fuel : Nat}
    (hBegins : beginsValue tokens = true) (h : expr fuel true (tokens ++ rest) = some (found, rest)) :
    statementExpr (fuel + 1) (tokens ++ rest) = some (found, rest) := by
  rw [statementExpr]
  simp [atBlock_of_beginsValue (beginsValue_append hBegins rest), h]

theorem run_arms_cons {tokens rest : List Token} {pattern : Pat} {value : Expr} {arms : List Arm}
    {joined ended : Bool} {fuel : Nat} {inner more : List Token}
    (hPattern : patterns fuel tokens = some (pattern, .mark '=' true :: .mark '>' joined :: inner))
    (hNe : tokens ≠ []) (hValue : statementExpr fuel inner = some (value, more))
    (hEnded : eatMark "," more = some (ended, rest))
    (hStop : (ended || value.endsStatement) = true)
    (hRest : Parser.arms fuel rest = some (arms, [])) :
    Parser.arms (fuel + 1) tokens = some (.mk pattern none value :: arms, []) := by
  have hMore : tokens.isEmpty = false := by simpa using hNe
  rw [Parser.arms]
  simp only [run_bind, run_atEnd, hMore, andThen_some]
  cases ended with
  | true => simp [hPattern, mark, hValue, hEnded, hRest]
  | false =>
    rw [Bool.false_or] at hStop
    simp [hPattern, mark, hValue, hEnded, hStop, hRest]

theorem run_statements_eval {tokens more rest : List Token} {value : Expr} {ended : Bool}
    {body : List Stmt} {fuel : Nat} (hNe : tokens ≠ []) (hClear : clear [';'] [] tokens = true)
    (hLet : isThatWord "let" tokens = false) (hValue : statementExpr fuel tokens = some (value, more))
    (hEnded : eatMark ";" more = some (ended, rest))
    (hStop : (ended || value.endsStatement || rest.isEmpty) = true)
    (hRest : Parser.statements (fuel + 1) rest = some (body, [])) :
    Parser.statements (fuel + 2) tokens = some (.eval value ended :: body, []) := by
  have hMore : tokens.isEmpty = false := by simpa using hNe
  have hSemicolon : eatMark ";" tokens = some (false, tokens) :=
    run_eatMark_none (afterMarks_of_clear hClear rfl [])
  have hStatement : statement (fuel + 1) tokens = some (.eval value ended, rest) := by
    rw [statement]
    simp [run_eatWord_false hLet, hValue, hEnded]
  rw [Parser.statements]
  simp only [run_bind, run_atEnd, hMore, andThen_some]
  cases ended with
  | true => simp [hSemicolon, hStatement, hRest]
  | false =>
    rw [Bool.false_or] at hStop
    cases hBlock : value.endsStatement with
    | true => simp [hSemicolon, hStatement, hBlock, hRest]
    | false =>
      rw [hBlock, Bool.false_or] at hStop
      simp [hSemicolon, hStatement, hBlock, hStop, hRest]

theorem run_statements_bind {first second rest : List Token} {pattern : Pat} {value : Expr}
    {body : List Stmt} {joined ended : Bool} {fuel : Nat}
    (hPattern : Parser.pattern fuel
        (first ++ Token.mark '=' joined :: (second ++ Token.mark ';' ended :: rest))
      = some (pattern, .mark '=' joined :: (second ++ Token.mark ';' ended :: rest)))
    (hValue : expr fuel true (second ++ Token.mark ';' ended :: rest) = some (value, .mark ';' ended :: rest))
    (hRest : Parser.statements (fuel + 1) rest = some (body, [])) :
    Parser.statements (fuel + 2)
        (.word "let" :: (first ++ Token.mark '=' joined :: (second ++ Token.mark ';' ended :: rest)))
      = some (.bind pattern (some value) none :: body, []) := by
  have hStatement : statement (fuel + 1)
      (.word "let" :: (first ++ Token.mark '=' joined :: (second ++ Token.mark ';' ended :: rest)))
        = some (.bind pattern (some value) none, rest) := by
    rw [statement]
    simp [hPattern, eatMark, mark, hValue]
  rw [Parser.statements]
  simp [eatMark, hStatement, hRest]

theorem run_cases {front inner rest : List Token} {value : Expr} {found : List Arm} {fuel : Nat}
    (hValue : unary (fuel + 1) false (front ++ Token.group .brace inner :: rest)
      = some (value, .group .brace inner :: rest))
    (h : Parser.arms (fuel + 2) inner = some (found, [])) :
    atom (fuel + 3) true (.word "match" :: (front ++ Token.group .brace inner :: rest))
      = some (.cases value found, rest) := by
  have hExpr : expr (fuel + 2) false (front ++ Token.group .brace inner :: rest)
      = some (value, .group .brace inner :: rest) := run_expr hValue rfl
  rw [atom]
  simp [isLifetime, hExpr, run_inGroup h]

theorem run_attempt {first second inner rest : List Token} {pattern : Pat} {value : Expr}
    {found : List Stmt} {joined : Bool} {fuel : Nat}
    (hPattern : patterns (fuel + 1)
        (first ++ Token.mark '=' joined :: (second ++ Token.group .brace inner :: rest))
      = some (pattern, .mark '=' joined :: (second ++ Token.group .brace inner :: rest)))
    (hValue : unary (fuel + 1) false (second ++ Token.group .brace inner :: rest)
      = some (value, .group .brace inner :: rest))
    (h : Parser.statements (fuel + 3) inner = some (found, []))
    (hElse : isThatWord "else" rest = false) :
    atom (fuel + 6) true
        (.word "if" :: .word "let"
          :: (first ++ Token.mark '=' joined :: (second ++ Token.group .brace inner :: rest)))
      = some (.ifElse (.attempt pattern value) found none, rest) := by
  have hCondition : expr (fuel + 4) false
      (.word "let" :: (first ++ Token.mark '=' joined :: (second ++ Token.group .brace inner :: rest)))
        = some (.attempt pattern value, .group .brace inner :: rest) := by
    rw [expr, run_bind, run_unary_word, atom]
    have hEnd : endsValue false (.group .brace inner :: rest) = true := rfl
    simp [isLifetime, hPattern, mark, hValue, run_exprFrom_end hEnd,
      run_trailing_end (endsOperand_of_endsValue hEnd)]
  rw [atom, conditional]
  simp [isLifetime, hCondition, body, run_inGroup h, run_eatWord_false hElse]

theorem blocky_endsStatement {ps : List Piece} {value : Expr} (h : ExprForm ps (.blocky value)) :
    value.endsStatement = true := by
  cases h <;> rfl

/-! ## One form at a time -/

section

variable {ps qs rs : List Piece} {value : Expr} {values : List Expr} {name : String}

/-! ### Receivers -/

theorem parsed_pathValue {segments : List Segment} (h : TypeForm ps (.segments true segments)) :
    ExprPhrase.Parsed ps (.receiver (.path (.mk false segments))) := by
  intro tokens hSpelled fuel structs rest hFuel hEnd
  obtain ⟨name, more, rfl, hName⟩ := segments_start h hSpelled
  simp only [countAll_word] at hFuel ⊢
  obtain ⟨fuel, rfl⟩ : ∃ f, fuel = f + 1 := ⟨fuel - 1, by omega⟩
  refine ⟨fuel, by omega, ?_⟩
  apply run_receiver_path ⟨name, more, rfl, hName⟩ (parsed_of_typeForm h hSpelled)
  · rw [countAll_word]
    omega
  · exact clear_mono hEnd (by simp) (by cases structs <;> simp)

theorem parsed_call {segments : List Segment} (h : TypeForm ps (.segments true segments))
    (ih : ExprPhrase.Parsed qs (.arguments values)) :
    ExprPhrase.Parsed (ps ++ [Piece.group .parenthesis qs])
      (.receiver (.call (.path (.mk false segments)) values)) := by
  intro tokens hSpelled fuel structs rest hFuel hEnd
  obtain ⟨front, back, rfl, hFront, hBack⟩ := spelled_append hSpelled
  obtain ⟨inner, back, rfl, hInner, rfl⟩ := spelled_group hBack
  simp only [countAll_append, countAll_group, countAll_nil] at hFuel ⊢
  obtain ⟨fuel, rfl⟩ : ∃ f, fuel = f + 2 := ⟨fuel - 2, by omega⟩
  obtain ⟨ended, hArguments⟩ := (ih hInner fuel (by omega)).1 (inner.length + 1) (by omega)
  refine ⟨fuel, by omega, ?_⟩
  rw [List.append_assoc, List.singleton_append, run_receiver_path (segments_start h hFront)
    (parsed_of_typeForm h hFront) (by omega) (by cases structs <;> rfl), run_trailing_call hArguments]

/-- A receiver goes on with what the parser takes in one more round behind it. -/
theorem parsedFrom_trailing {front suffix : List Token} {found : Expr}
    (h : ExprPhrase.ParsedFrom front (.receiver value)) (hOne : 1 ≤ countAll suffix)
    (hEnds : ∀ structs rest, endsReceiver structs (suffix ++ rest) = true)
    (hTrailing : ∀ fuel structs rest, 16 * countAll suffix ≤ fuel → endsReceiver structs rest = true →
      trailing (fuel + 1) value (suffix ++ rest) = trailing fuel found rest) :
    ExprPhrase.ParsedFrom (front ++ suffix) (.receiver found) := by
  intro fuel structs rest hFuel hEnd
  rw [countAll_append] at hFuel ⊢
  obtain ⟨left, hLeft, hRun⟩ := h fuel structs (suffix ++ rest) (by omega) (hEnds structs rest)
  obtain ⟨left, rfl⟩ : ∃ f, left = f + 1 := ⟨left - 1, by omega⟩
  refine ⟨left, by omega, ?_⟩
  rw [List.append_assoc]
  exact hRun.trans (hTrailing left structs rest (by omega) hEnd)

theorem parsed_method (h : ExprForm ps (.receiver value)) (hName : isDeclarable name = true)
    (ih : ExprPhrase.Parsed ps (.receiver value)) (ihArguments : ExprPhrase.Parsed qs (.arguments values)) :
    ExprPhrase.Parsed (ps ++ [Piece.mark ".", .word name, .group .parenthesis qs])
      (.receiver (.method value name [] values)) := by
  intro tokens hSpelled
  obtain ⟨front, back, rfl, hFront, hBack⟩ := spelled_append hSpelled
  obtain ⟨joined, back, rfl, hWord⟩ := spelled_one '.' rfl hBack
  obtain ⟨back, rfl, hGroup⟩ := spelled_word hWord
  obtain ⟨inner, back, rfl, hInner, rfl⟩ := spelled_group hGroup
  refine parsedFrom_trailing (ih hFront) (by simp) (fun _ _ => rfl) fun fuel structs rest hFuel _ => ?_
  simp only [countAll_group, countAll_mark, countAll_word, countAll_nil] at hFuel
  obtain ⟨ended, hArguments⟩ := (ihArguments hInner fuel (by omega)).1 (inner.length + 1) (by omega)
  exact run_trailing_method (receiver_isRange h) (Bool.and_eq_true_iff.mp hName).2 hArguments

theorem parsed_field (h : ExprForm ps (.receiver value)) (hName : isDeclarable name = true)
    (ih : ExprPhrase.Parsed ps (.receiver value)) :
    ExprPhrase.Parsed (ps ++ [Piece.mark ".", .word name]) (.receiver (.field value name)) := by
  intro tokens hSpelled
  obtain ⟨front, back, rfl, hFront, hBack⟩ := spelled_append hSpelled
  obtain ⟨joined, back, rfl, hWord⟩ := spelled_one '.' rfl hBack
  obtain ⟨back, rfl, rfl⟩ := spelled_word hWord
  refine parsedFrom_trailing (ih hFront) (by simp) (fun _ _ => rfl) fun fuel structs rest _ hEnd => ?_
  apply run_trailing_field (receiver_isRange h) (Bool.and_eq_true_iff.mp hName).2
  exact clear_mono hEnd (by simp) (by cases structs <;> simp)

theorem parsed_await (h : ExprForm ps (.receiver value)) (ih : ExprPhrase.Parsed ps (.receiver value)) :
    ExprPhrase.Parsed (ps ++ [Piece.mark ".", .word "await"]) (.receiver (.await value)) := by
  intro tokens hSpelled
  obtain ⟨front, back, rfl, hFront, hBack⟩ := spelled_append hSpelled
  obtain ⟨joined, back, rfl, hWord⟩ := spelled_one '.' rfl hBack
  obtain ⟨back, rfl, rfl⟩ := spelled_word hWord
  exact parsedFrom_trailing (ih hFront) (by simp) (fun _ _ => rfl) fun _ _ _ _ _ =>
    run_trailing_await (receiver_isRange h)

/-! ### Operands -/

theorem parsed_receiver (ih : ExprPhrase.Parsed ps (.receiver value)) :
    ExprPhrase.Parsed ps (.operand value) := by
  intro tokens hSpelled fuel structs rest hFuel hEnd
  obtain ⟨left, hLeft, hRun⟩ := ih hSpelled fuel structs rest (by omega)
    (clear_mono hEnd (by simp) (by cases structs <;> simp))
  obtain ⟨left, rfl⟩ : ∃ f, left = f + 1 := ⟨left - 1, by omega⟩
  exact hRun.trans (run_trailing_end hEnd)

theorem parsed_place (h : ExprForm ps (.receiver value)) (ih : ExprPhrase.Parsed ps (.receiver value)) :
    ExprPhrase.Parsed (ps ++ [Piece.mark ".", .literal "0"]) (.operand (.field value "0")) := by
  intro tokens hSpelled fuel structs rest hFuel hEnd
  obtain ⟨front, back, rfl, hFront, hBack⟩ := spelled_append hSpelled
  obtain ⟨joined, back, rfl, hLiteral⟩ := spelled_one '.' rfl hBack
  obtain ⟨back, rfl, rfl⟩ := spelled_literal hLiteral
  simp only [countAll_append, countAll_mark, countAll_literal, countAll_nil] at hFuel
  obtain ⟨left, hLeft, hRun⟩ := ih hFront fuel structs (.mark '.' joined :: .literal "0" :: rest)
    (by omega) rfl
  obtain ⟨left, rfl⟩ : ∃ f, left = f + 2 := ⟨left - 2, by omega⟩
  rw [List.append_assoc]
  exact (hRun.trans (run_trailing_place (receiver_isRange h))).trans (run_trailing_end hEnd)

theorem parsed_literal (text : String) : ExprPhrase.Parsed [.literal text] (.operand (.literal text)) := by
  intro tokens hSpelled fuel structs rest hFuel hEnd
  obtain ⟨back, rfl, rfl⟩ := spelled_literal hSpelled
  obtain ⟨fuel, rfl⟩ : ∃ f, fuel = f + 2 := ⟨fuel - 2, by omega⟩
  rw [List.singleton_append, run_unary_literal, run_trailing_end hEnd]

theorem parsed_negative (text : String) :
    ExprPhrase.Parsed [.mark "-", .literal text] (.operand (.unary "-" (.literal text))) := by
  intro tokens hSpelled fuel structs rest hFuel hEnd
  obtain ⟨joined, back, rfl, hBack⟩ := spelled_one '-' rfl hSpelled
  obtain ⟨back, rfl, rfl⟩ := spelled_literal hBack
  obtain ⟨fuel, rfl⟩ : ∃ f, fuel = f + 3 := ⟨fuel - 3, by omega⟩
  apply run_negative
  rw [List.singleton_append, run_unary_literal, run_trailing_end hEnd]

theorem parsed_target (ih : ExprPhrase.Parsed ps (.operand value)) :
    ExprPhrase.Parsed (.mark "*" :: ps) (.operand (.unary "*" value)) := by
  intro tokens hSpelled fuel structs rest hFuel hEnd
  obtain ⟨joined, back, rfl, hBack⟩ := spelled_one '*' rfl hSpelled
  rw [countAll_mark] at hFuel
  obtain ⟨fuel, rfl⟩ : ∃ f, fuel = f + 1 := ⟨fuel - 1, by omega⟩
  exact run_target (ih hBack fuel structs rest (by omega) hEnd)

theorem parsed_reference (h : ExprForm ps (.operand value)) (ih : ExprPhrase.Parsed ps (.operand value)) :
    ExprPhrase.Parsed (.mark "&" :: ps) (.operand (.reference false value)) := by
  intro tokens hSpelled fuel structs rest hFuel hEnd
  obtain ⟨joined, back, rfl, hBack⟩ := spelled_one '&' rfl hSpelled
  rw [countAll_mark] at hFuel
  obtain ⟨fuel, rfl⟩ : ∃ f, fuel = f + 1 := ⟨fuel - 1, by omega⟩
  exact run_reference (operand_begins h hBack) (ih hBack fuel structs rest (by omega) hEnd)

theorem parsed_mutable (ih : ExprPhrase.Parsed ps (.operand value)) :
    ExprPhrase.Parsed (.mark "&" :: .word "mut" :: ps) (.operand (.reference true value)) := by
  intro tokens hSpelled fuel structs rest hFuel hEnd
  obtain ⟨joined, back, rfl, hBack⟩ := spelled_one '&' rfl hSpelled
  obtain ⟨back, rfl, hLast⟩ := spelled_word hBack
  rw [countAll_mark, countAll_word] at hFuel
  obtain ⟨fuel, rfl⟩ : ∃ f, fuel = f + 1 := ⟨fuel - 1, by omega⟩
  exact run_mutable (ih hLast fuel structs rest (by omega) hEnd)

theorem parsed_array (ih : ExprPhrase.Parsed ps (.arguments values)) :
    ExprPhrase.Parsed [.group .bracket ps] (.operand (.array values)) := by
  intro tokens hSpelled fuel structs rest hFuel hEnd
  obtain ⟨inner, back, rfl, hInner, rfl⟩ := spelled_group hSpelled
  rw [countAll_group, countAll_nil] at hFuel
  obtain ⟨fuel, rfl⟩ : ∃ f, fuel = f + 3 := ⟨fuel - 3, by omega⟩
  exact run_array (ih hInner fuel (by omega)).2 hEnd

theorem parsed_asyncBlock {body : List Stmt} (ih : ExprPhrase.Parsed ps (.statements body)) :
    ExprPhrase.Parsed [.word "async", .word "move", .group .brace ps] (.operand (.asyncBlock true body)) := by
  intro tokens hSpelled fuel structs rest hFuel hEnd
  obtain ⟨back, rfl, hMove⟩ := spelled_word hSpelled
  obtain ⟨back, rfl, hGroup⟩ := spelled_word hMove
  obtain ⟨inner, back, rfl, hInner, rfl⟩ := spelled_group hGroup
  simp only [countAll_word, countAll_group, countAll_nil] at hFuel
  obtain ⟨fuel, rfl⟩ : ∃ f, fuel = f + 3 := ⟨fuel - 3, by omega⟩
  exact run_asyncBlock (ih hInner fuel (by omega)) hEnd

/-! ### Values -/

theorem parsed_closure {type : Ty} {body : List Stmt} (hName : isDeclarable name = true)
    (hType : TypeForm ps (.type type)) (ih : ExprPhrase.Parsed qs (.statements body)) :
    ExprPhrase.Parsed (.word "move" :: .mark "|" :: .word name :: .mark ":"
        :: (ps ++ [Piece.mark "|", .group .brace qs]))
      (.value (.closure true [.typed (.bind false false name none) type] none (.block none body))) := by
  intro tokens hSpelled fuel structs rest hFuel hEnd
  obtain ⟨back, rfl, hMove⟩ := spelled_word hSpelled
  obtain ⟨first, back, rfl, hWord⟩ := spelled_one '|' rfl hMove
  obtain ⟨back, rfl, hColon⟩ := spelled_word hWord
  obtain ⟨second, back, rfl, hMore⟩ := spelled_one ':' rfl hColon
  obtain ⟨front, back, rfl, hFront, hLast⟩ := spelled_append hMore
  obtain ⟨third, back, rfl, hBody⟩ := spelled_one '|' rfl hLast
  obtain ⟨inner, back, rfl, hInner, rfl⟩ := spelled_group hBody
  simp only [countAll_word, countAll_mark, countAll_append, countAll_group, countAll_nil] at hFuel
  obtain ⟨fuel, rfl⟩ : ∃ f, fuel = f + 10 := ⟨fuel - 10, by omega⟩
  have hStart := fun rest => afterMarks_of_clear (clear_of_typeForm hType hFront rest) (c := ':') rfl []
  have hFound := fun rest h => parsed_of_typeForm hType hFront (fuel + 6) true rest (by omega) h
  have hClosure := @run_closure _ _ _ _ _ _ _ first second third _
    (Bool.and_eq_true_iff.mp hName).2 hStart hFound (ih hInner (fuel + 1) (by omega)) hEnd
  simpa using hClosure

theorem parsed_operand (ih : ExprPhrase.Parsed ps (.operand value)) :
    ExprPhrase.Parsed ps (.value value) := by
  intro tokens hSpelled fuel structs rest hFuel hEnd
  obtain ⟨fuel, rfl⟩ : ∃ f, fuel = f + 2 := ⟨fuel - 2, by omega⟩
  exact run_expr (ih hSpelled (fuel + 1) structs rest (by omega) (endsOperand_of_endsValue hEnd)) hEnd

theorem parsed_equal {left right : Expr} (h : ExprForm ps (.operand left))
    (ihLeft : ExprPhrase.Parsed ps (.operand left)) (ihRight : ExprPhrase.Parsed qs (.operand right)) :
    ExprPhrase.Parsed (ps ++ Piece.mark "==" :: qs) (.value (.binary "==" left right)) := by
  intro tokens hSpelled fuel structs rest hFuel hEnd
  obtain ⟨front, back, rfl, hFront, hMark⟩ := spelled_append hSpelled
  obtain ⟨joined, back, rfl, hBack⟩ := spelled_two '=' '=' rfl hMark
  simp only [countAll_append, countAll_mark] at hFuel
  obtain ⟨fuel, rfl⟩ : ∃ f, fuel = f + 5 := ⟨fuel - 5, by omega⟩
  rw [List.append_assoc]
  apply run_equal (operand_mayFollow h) _ _ hEnd
  · exact ihLeft hFront _ _ _ (by omega) (by cases structs <;> rfl)
  · exact ihRight hBack _ _ _ (by omega) (endsOperand_of_endsValue hEnd)

theorem parsed_leave (h : ExprForm ps (.value value)) (ih : ExprPhrase.Parsed ps (.value value)) :
    ExprPhrase.Parsed (.word "return" :: ps) (.value (.leave (some value))) := by
  intro tokens hSpelled fuel structs rest hFuel hEnd
  obtain ⟨back, rfl, hBack⟩ := spelled_word hSpelled
  rw [countAll_word] at hFuel
  obtain ⟨fuel, rfl⟩ : ∃ f, fuel = f + 4 := ⟨fuel - 4, by omega⟩
  exact run_leave (value_begins h hBack) (ih hBack _ _ _ (by omega) hEnd) hEnd

/-! ### Values with commas between them -/

theorem parsed_noArguments : ExprPhrase.Parsed [] (.arguments []) := by
  intro tokens hSpelled fuel hFuel
  cases hSpelled
  constructor
  · intro n hLength
    obtain ⟨n, rfl⟩ : ∃ m, n = m + 1 := ⟨n - 1, by omega⟩
    exact ⟨false, rfl⟩
  · rw [bracketExpr]
    rfl

theorem parsed_lastValue (h : ExprForm ps (.value value)) (ih : ExprPhrase.Parsed ps (.value value)) :
    ExprPhrase.Parsed ps (.arguments [value]) := by
  intro tokens hSpelled fuel hFuel
  have hNe := ne_nil_of_beginsValue (value_begins h hSpelled)
  have hFound := ih hSpelled fuel true [] (by omega) rfl
  rw [List.append_nil] at hFound
  constructor
  · intro n hLength
    obtain ⟨n, rfl⟩ : ∃ m, n = m + 1 := ⟨n - 1, by omega⟩
    exact ⟨false, run_commasUpTo_last hNe hFound n⟩
  · rw [bracketExpr]
    simp [hNe, hFound, eatMark]

theorem parsed_endedValue (ih : ExprPhrase.Parsed ps (.value value)) :
    ExprPhrase.Parsed (ps ++ [Piece.mark ","]) (.arguments [value]) := by
  intro tokens hSpelled fuel hFuel
  obtain ⟨front, back, rfl, hFront, hBack⟩ := spelled_append hSpelled
  obtain ⟨joined, back, rfl, rfl⟩ := spelled_one ',' rfl hBack
  simp only [countAll_append, countAll_mark, countAll_nil] at hFuel
  have hNe : front ++ [Token.mark ',' joined] ≠ [] := by simp
  have hFound := ih hFront fuel true [.mark ',' joined] (by omega) rfl
  constructor
  · intro n hLength
    obtain ⟨n, rfl⟩ : ∃ m, n = m + 1 := ⟨n - 1, by omega⟩
    exact ⟨true, run_commasUpTo_ended hNe hFound n⟩
  · rw [bracketExpr]
    simp [hFound, eatMark, mark, commas, commasUpTo]

theorem parsed_consValues {next : Expr} (hRest : ExprForm qs (.arguments (next :: values)))
    (ih : ExprPhrase.Parsed ps (.value value))
    (ihRest : ExprPhrase.Parsed qs (.arguments (next :: values))) :
    ExprPhrase.Parsed (ps ++ Piece.mark "," :: qs) (.arguments (value :: next :: values)) := by
  intro tokens hSpelled fuel hFuel
  obtain ⟨front, back, rfl, hFront, hBack⟩ := spelled_append hSpelled
  obtain ⟨joined, back, rfl, hMore⟩ := spelled_one ',' rfl hBack
  simp only [countAll_append, countAll_mark] at hFuel
  have hNe : front ++ Token.mark ',' joined :: back ≠ [] := by simp
  have hMoreNe : back ≠ [] := ne_nil_of_beginsValue (arguments_begin hRest hMore)
  have hFound := ih hFront fuel true (.mark ',' joined :: back) (by omega) rfl
  obtain ⟨hCommas, -⟩ := ihRest hMore fuel (by omega)
  constructor
  · intro n hLength
    rw [List.length_append, List.length_cons] at hLength
    obtain ⟨n, rfl⟩ : ∃ m, n = m + 1 := ⟨n - 1, by omega⟩
    obtain ⟨ended, hRun⟩ := hCommas n (by omega)
    exact ⟨ended, run_commasUpTo_cons hNe hFound hMoreNe hRun⟩
  · obtain ⟨ended, hRun⟩ := hCommas (back.length + 1) (by omega)
    rw [bracketExpr]
    simp [hFound, eatMark, mark, commas, hRun]

/-! ### Expressions that end a statement -/

section

variable {pattern : Pat} {arms : List Arm} {body : List Stmt}

theorem parsed_block (ih : ExprPhrase.Parsed ps (.statements body)) :
    ExprPhrase.Parsed [.group .brace ps] (.blocky (.block none body)) := by
  intro tokens hSpelled fuel rest hFuel hClear _
  obtain ⟨inner, back, rfl, hInner, rfl⟩ := spelled_group hSpelled
  rw [countAll_group, countAll_nil] at hFuel
  obtain ⟨fuel, rfl⟩ : ∃ f, fuel = f + 4 := ⟨fuel - 4, by omega⟩
  exact run_statementExpr_block rfl (run_block (ih hInner fuel (by omega))) hClear

theorem parsed_cases (ih : ExprPhrase.Parsed ps (.operand value)) (ihArms : ExprPhrase.Parsed qs (.arms arms)) :
    ExprPhrase.Parsed (.word "match" :: (ps ++ [Piece.group .brace qs])) (.blocky (.cases value arms)) := by
  intro tokens hSpelled fuel rest hFuel hClear _
  obtain ⟨back, rfl, hBack⟩ := spelled_word hSpelled
  obtain ⟨front, back, rfl, hFront, hGroup⟩ := spelled_append hBack
  obtain ⟨inner, back, rfl, hInner, rfl⟩ := spelled_group hGroup
  simp only [countAll_word, countAll_append, countAll_group, countAll_nil] at hFuel
  obtain ⟨fuel, rfl⟩ : ∃ f, fuel = f + 4 := ⟨fuel - 4, by omega⟩
  apply run_statementExpr_block rfl _ hClear
  rw [List.cons_append, List.append_assoc]
  exact run_cases (ih hFront _ _ _ (by omega) rfl) (ihArms hInner _ (by omega))

theorem parsed_attempt (hPattern : PatternForm ps (.pattern pattern))
    (ih : ExprPhrase.Parsed qs (.operand value)) (ihBody : ExprPhrase.Parsed rs (.statements body)) :
    ExprPhrase.Parsed
      (.word "if" :: .word "let" :: (ps ++ Piece.mark "=" :: (qs ++ [Piece.group .brace rs])))
      (.blocky (.ifElse (.attempt pattern value) body none)) := by
  intro tokens hSpelled fuel rest hFuel hClear hElse
  obtain ⟨back, rfl, hLet⟩ := spelled_word hSpelled
  obtain ⟨back, rfl, hMore⟩ := spelled_word hLet
  obtain ⟨first, back, rfl, hFirst, hEqual⟩ := spelled_append hMore
  obtain ⟨joined, back, rfl, hLast⟩ := spelled_one '=' rfl hEqual
  obtain ⟨second, back, rfl, hSecond, hGroup⟩ := spelled_append hLast
  obtain ⟨inner, back, rfl, hInner, rfl⟩ := spelled_group hGroup
  simp only [countAll_word, countAll_append, countAll_mark, countAll_group, countAll_nil] at hFuel
  obtain ⟨fuel, rfl⟩ : ∃ f, fuel = f + 7 := ⟨fuel - 7, by omega⟩
  apply run_statementExpr_block rfl _ hClear
  have hStart := (hPattern.begins hFirst).2
    (.mark '=' joined :: (second ++ Token.group .brace inner :: rest))
  have hEnds : endsPattern (.mark '=' joined :: (second ++ Token.group .brace inner :: rest)) = true := by
    simp [endsPattern, clear]
  have hRun := run_patterns (clear_mono hStart (by simp) (by simp)) hEnds
    (parsed_of_patternForm hPattern hFirst fuel _ (by omega) hEnds)
  simpa using run_attempt hRun (ih hSecond _ _ _ (by omega) rfl) (ihBody hInner _ (by omega)) hElse

/-! ### Arms -/

theorem parsed_noArms : ExprPhrase.Parsed [] (.arms []) := by
  intro tokens hSpelled fuel hFuel
  cases hSpelled
  obtain ⟨fuel, rfl⟩ : ∃ f, fuel = f + 1 := ⟨fuel - 1, by omega⟩
  rw [Parser.arms]
  rfl

theorem parsed_arm (hPattern : PatternForm ps (.pattern pattern)) (h : ExprForm qs (.value value))
    (ih : ExprPhrase.Parsed qs (.value value)) (ihRest : ExprPhrase.Parsed rs (.arms arms)) :
    ExprPhrase.Parsed (ps ++ Piece.mark "=>" :: (qs ++ Piece.mark "," :: rs))
      (.arms (.mk pattern none value :: arms)) := by
  intro tokens hSpelled fuel hFuel
  obtain ⟨first, back, rfl, hFirst, hArrow⟩ := spelled_append hSpelled
  obtain ⟨joined, back, rfl, hMore⟩ := spelled_two '=' '>' rfl hArrow
  obtain ⟨second, back, rfl, hSecond, hComma⟩ := spelled_append hMore
  obtain ⟨ended, back, rfl, hLast⟩ := spelled_one ',' rfl hComma
  simp only [countAll_append, countAll_mark] at hFuel
  obtain ⟨fuel, rfl⟩ : ∃ f, fuel = f + 2 := ⟨fuel - 2, by omega⟩
  obtain ⟨hNe, hStart⟩ := hPattern.begins hFirst
  have hEnds : endsPattern (.mark '=' true :: .mark '>' joined
      :: (second ++ Token.mark ',' ended :: back)) = true := by
    simp [endsPattern, clear]
  apply run_arms_cons (run_patterns (clear_mono (hStart _) (by simp) (by simp)) hEnds
    (parsed_of_patternForm hPattern hFirst fuel _ (by omega) hEnds)) (by simp)
    (run_statementExpr_value (value_begins h hSecond) (ih hSecond _ _ _ (by omega) rfl))
    _ _ (ihRest hLast _ (by omega))
  · exact true
  · simp [eatMark]
  · rfl

/-- Behind a block the comma is left out: what follows does not begin with one. -/
theorem parsed_blockyArm (hPattern : PatternForm ps (.pattern pattern)) (h : ExprForm qs (.blocky value))
    (hRest : ExprForm rs (.arms arms)) (ih : ExprPhrase.Parsed qs (.blocky value))
    (ihRest : ExprPhrase.Parsed rs (.arms arms)) :
    ExprPhrase.Parsed (ps ++ Piece.mark "=>" :: (qs ++ rs)) (.arms (.mk pattern none value :: arms)) := by
  intro tokens hSpelled fuel hFuel
  obtain ⟨first, back, rfl, hFirst, hArrow⟩ := spelled_append hSpelled
  obtain ⟨joined, back, rfl, hMore⟩ := spelled_two '=' '>' rfl hArrow
  obtain ⟨second, back, rfl, hSecond, hLast⟩ := spelled_append hMore
  simp only [countAll_append, countAll_mark] at hFuel
  obtain ⟨fuel, rfl⟩ : ∃ f, fuel = f + 2 := ⟨fuel - 2, by omega⟩
  obtain ⟨hNe, hStart⟩ := hPattern.begins hFirst
  have hEnds : endsPattern (.mark '=' true :: .mark '>' joined :: (second ++ back)) = true := by
    simp [endsPattern, clear]
  obtain ⟨hClear, hElse⟩ := arms_begin hRest hLast
  have hComma : afterMarks [','] back = none := afterMarks_of_clear hClear rfl []
  apply run_arms_cons (run_patterns (clear_mono (hStart _) (by simp) (by simp)) hEnds
    (parsed_of_patternForm hPattern hFirst fuel _ (by omega) hEnds)) (by simp)
    (ih hSecond (fuel + 1) back (by omega) (clear_mono hClear (by simp) (by simp)) hElse)
    _ _ (ihRest hLast _ (by omega))
  · exact false
  · simp [eatMark, hComma]
  · simp [blocky_endsStatement h]

/-! ### Statements -/

theorem parsed_noStatements : ExprPhrase.Parsed [] (.statements []) := by
  intro tokens hSpelled fuel hFuel
  cases hSpelled
  obtain ⟨fuel, rfl⟩ : ∃ f, fuel = f + 1 := ⟨fuel - 1, by omega⟩
  rw [Parser.statements]
  rfl

theorem parsed_bind (hPattern : PatternForm ps (.pattern pattern))
    (ih : ExprPhrase.Parsed qs (.value value)) (ihRest : ExprPhrase.Parsed rs (.statements body)) :
    ExprPhrase.Parsed (.word "let" :: (ps ++ Piece.mark "=" :: (qs ++ Piece.mark ";" :: rs)))
      (.statements (.bind pattern (some value) none :: body)) := by
  intro tokens hSpelled fuel hFuel
  obtain ⟨back, rfl, hMore⟩ := spelled_word hSpelled
  obtain ⟨first, back, rfl, hFirst, hEqual⟩ := spelled_append hMore
  obtain ⟨joined, back, rfl, hValue⟩ := spelled_one '=' rfl hEqual
  obtain ⟨second, back, rfl, hSecond, hEnd⟩ := spelled_append hValue
  obtain ⟨ended, back, rfl, hLast⟩ := spelled_one ';' rfl hEnd
  simp only [countAll_word, countAll_append, countAll_mark] at hFuel
  obtain ⟨fuel, rfl⟩ : ∃ f, fuel = f + 2 := ⟨fuel - 2, by omega⟩
  have hEnds : endsPattern (.mark '=' joined :: (second ++ Token.mark ';' ended :: back)) = true := by
    simp [endsPattern, clear]
  exact run_statements_bind (parsed_of_patternForm hPattern hFirst fuel _ (by omega) hEnds)
    (ih hSecond _ _ _ (by omega) rfl) (ihRest hLast _ (by omega))

theorem parsed_run (h : ExprForm ps (.value value)) (ih : ExprPhrase.Parsed ps (.value value))
    (ihRest : ExprPhrase.Parsed qs (.statements body)) :
    ExprPhrase.Parsed (ps ++ Piece.mark ";" :: qs) (.statements (.eval value true :: body)) := by
  intro tokens hSpelled fuel hFuel
  obtain ⟨front, back, rfl, hFront, hEnd⟩ := spelled_append hSpelled
  obtain ⟨ended, back, rfl, hLast⟩ := spelled_one ';' rfl hEnd
  simp only [countAll_append, countAll_mark] at hFuel
  obtain ⟨fuel, rfl⟩ : ∃ f, fuel = f + 3 := ⟨fuel - 3, by omega⟩
  have hBegins := value_begins h hFront
  have hAll := beginsValue_append hBegins (.mark ';' ended :: back)
  apply run_statements_eval (ne_nil_of_beginsValue hAll)
    (clear_mono (clear_of_beginsValue hAll) (by simp) (by simp))
    (isThatWord_of_beginsValue hAll rfl rfl)
    (run_statementExpr_value hBegins (ih hFront _ _ _ (by omega) rfl)) _ _ (ihRest hLast _ (by omega))
  · simp [eatMark]
  · rfl

theorem parsed_result (h : ExprForm ps (.value value)) (ih : ExprPhrase.Parsed ps (.value value)) :
    ExprPhrase.Parsed ps (.statements [.eval value false]) := by
  intro tokens hSpelled fuel hFuel
  obtain ⟨fuel, rfl⟩ : ∃ f, fuel = f + 3 := ⟨fuel - 3, by omega⟩
  have hBegins := value_begins h hSpelled
  have hFound := run_statementExpr_value hBegins (ih hSpelled fuel true [] (by omega) rfl)
  rw [List.append_nil] at hFound
  apply run_statements_eval (ne_nil_of_beginsValue hBegins)
    (clear_mono (clear_of_beginsValue hBegins) (by simp) (by simp))
    (isThatWord_of_beginsValue hBegins rfl rfl) hFound
  · rfl
  · simp
  · rw [Parser.statements]
    rfl

/-- A block ends its statement only if what follows cannot go on with it. -/
theorem parsed_blocky (h : ExprForm ps (.blocky value)) (hRest : ExprForm qs (.statements body))
    (ih : ExprPhrase.Parsed ps (.blocky value)) (ihRest : ExprPhrase.Parsed qs (.statements body)) :
    ExprPhrase.Parsed (ps ++ qs) (.statements (.eval value false :: body)) := by
  intro tokens hSpelled fuel hFuel
  obtain ⟨front, back, rfl, hFront, hBack⟩ := spelled_append hSpelled
  simp only [countAll_append] at hFuel
  obtain ⟨fuel, rfl⟩ : ∃ f, fuel = f + 2 := ⟨fuel - 2, by omega⟩
  obtain ⟨hNe, hClear, -, hLet⟩ := blocky_begins h hFront back
  have hCount : 0 < countAll front :=
    Nat.lt_of_lt_of_le (List.length_pos_iff.mpr hNe) (length_le_countAll front)
  obtain ⟨hNext, hElse⟩ := statements_begin hRest hBack
  have hSemicolon : afterMarks [';'] back = none := afterMarks_of_clear hNext rfl []
  have hEnds : value.endsStatement = true := blocky_endsStatement h
  apply run_statements_eval (List.append_ne_nil_of_left_ne_nil hNe back)
    (clear_mono hClear (by simp) (by simp)) hLet
    (ih hFront _ _ (by omega) (clear_mono hNext (by simp) (by simp)) hElse) _ _
    (ihRest hBack _ (by omega))
  · simp [eatMark, hSemicolon]
  · simp [hEnds]

end

end

/-- The parser takes all of an expression and stops behind it. -/
theorem parsed_of_exprForm {ps : List Piece} {phrase : ExprPhrase} (h : ExprForm ps phrase) :
    phrase.Parsed ps := by
  induction h with
  | path h => exact parsed_pathValue h
  | call h _ ih => exact parsed_call h ih
  | method h hName _ ih ihArguments => exact parsed_method h hName ih ihArguments
  | field h hName ih => exact parsed_field h hName ih
  | await h ih => exact parsed_await h ih
  | receiver _ ih => exact parsed_receiver ih
  | place h ih => exact parsed_place h ih
  | literal _ => exact parsed_literal _
  | negative _ => exact parsed_negative _
  | target _ ih => exact parsed_target ih
  | reference h ih => exact parsed_reference h ih
  | mutable _ ih => exact parsed_mutable ih
  | array _ ih => exact parsed_array ih
  | asyncBlock _ ih => exact parsed_asyncBlock ih
  | closure hName hType _ ih => exact parsed_closure hName hType ih
  | operand _ ih => exact parsed_operand ih
  | equal h _ ihLeft ihRight => exact parsed_equal h ihLeft ihRight
  | leave h ih => exact parsed_leave h ih
  | noArguments => exact parsed_noArguments
  | last h ih => exact parsed_lastValue h ih
  | ended _ ih => exact parsed_endedValue ih
  | cons _ hRest ih ihRest => exact parsed_consValues hRest ih ihRest
  | block _ ih => exact parsed_block ih
  | cases _ _ ih ihArms => exact parsed_cases ih ihArms
  | attempt hPattern _ _ ih ihBody => exact parsed_attempt hPattern ih ihBody
  | noArms => exact parsed_noArms
  | arm hPattern h _ ih ihRest => exact parsed_arm hPattern h ih ihRest
  | blockyArm hPattern h hRest ih ihRest => exact parsed_blockyArm hPattern h hRest ih ihRest
  | noStatements => exact parsed_noStatements
  | bind hPattern _ _ ih ihRest => exact parsed_bind hPattern ih ihRest
  | run h _ ih ihRest => exact parsed_run h ih ihRest
  | result h ih => exact parsed_result h ih
  | blocky h hRest ih ihRest => exact parsed_blocky h hRest ih ihRest

end ProtoBind.Source
