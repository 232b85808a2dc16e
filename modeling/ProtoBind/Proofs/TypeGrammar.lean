import ProtoBind.Proofs.ParserRuns

/-!
# The grammar of types

The types and paths that emitted source is made of, and that they are parsed: in front of anything that
they cannot go on with, the parser takes all of such a phrase and nothing else.
-/

set_option autoImplicit false

namespace ProtoBind.Source

open Text ProtoBind.Source.Parser

def isDeclarable (name : String) : Bool := isWord name && isName name

def isSegment (name : String) : Bool :=
  isWord name && (isName name || name == "Self" || pathWords.contains name)

theorem isSegment_of_isDeclarable {name : String} (h : isDeclarable name = true) :
    isSegment name = true := by
  obtain ⟨hWord, hName⟩ := Bool.and_eq_true_iff.mp h
  simp [isSegment, hWord, hName]

theorem isWord_of_isSegment {name : String} (h : isSegment name = true) : isWord name = true :=
  (Bool.and_eq_true_iff.mp h).1

theorem isWord_of_isDeclarable {name : String} (h : isDeclarable name = true) : isWord name = true :=
  (Bool.and_eq_true_iff.mp h).1

theorem ne_empty_of_isWord {name : String} (h : isWord name = true) : name ≠ "" := by
  rintro rfl
  revert h
  decide

theorem ne_of_isSegment {name other : String} (h : isSegment name = true)
    (hOther : isSegment other = false) : name ≠ other := by
  rintro rfl
  rw [h] at hOther
  cases hOther

inductive TypePhrase where
  | type (type : Ty)
  /-- A type that may be a sum of bounds. -/
  | sum (type : Ty)
  | segments (inExpr : Bool) (segments : List Segment)
  | argument (argument : Argument)
  | arguments (arguments : List Argument)
  | bounds (bounds : List Bound)

inductive TypeForm : List Piece → TypePhrase → Prop where
  | path {ps : List Piece} {segments : List Segment} (h : TypeForm ps (.segments false segments)) :
      TypeForm ps (.type (.path (.mk false segments)))
  | unit : TypeForm [.group .parenthesis []] (.type (.tuple []))
  | reference {ps : List Piece} {type : Ty} (h : TypeForm ps (.type type)) :
      TypeForm (.mark "&" :: ps) (.type (.reference none false type))
  | mutable {ps : List Piece} {type : Ty} (h : TypeForm ps (.type type)) :
      TypeForm (.mark "&" :: .word "mut" :: ps) (.type (.reference none true type))
  | static {ps : List Piece} {type : Ty} (h : TypeForm ps (.type type)) :
      TypeForm (.mark "&" :: .mark "'" :: .word "static" :: ps)
        (.type (.reference (some "'static") false type))
  | plain {ps : List Piece} {type : Ty} (h : TypeForm ps (.type type)) : TypeForm ps (.sum type)
  | impl {ps : List Piece} {bounds : List Bound} (h : TypeForm ps (.bounds bounds)) :
      TypeForm (.word "impl" :: ps) (.sum (.impl bounds))
  | name {name : String} (inExpr : Bool) (hName : isSegment name = true) :
      TypeForm [.word name] (.segments inExpr [.mk name .none])
  | angled {name : String} {ps : List Piece} {arguments : List Argument}
      (hName : isDeclarable name = true) (h : TypeForm ps (.arguments arguments)) :
      TypeForm (.word name :: .mark "<" :: (ps ++ [Piece.mark ">"]))
        (.segments false [.mk name (.angled arguments)])
  | within {name : String} {inExpr : Bool} {ps : List Piece} {segments : List Segment}
      (hName : isSegment name = true) (h : TypeForm ps (.segments inExpr segments)) :
      TypeForm (.word name :: .mark "::" :: ps) (.segments inExpr (.mk name .none :: segments))
  | argument {ps : List Piece} {type : Ty} (h : TypeForm ps (.type type)) :
      TypeForm ps (.argument (.type type))
  | equality {name : String} {ps : List Piece} {type : Ty} (hName : isDeclarable name = true)
      (h : TypeForm ps (.type type)) :
      TypeForm (.word name :: .mark "=" :: ps) (.argument (.equality name type))
  | last {ps : List Piece} {argument : Argument} (h : TypeForm ps (.argument argument)) :
      TypeForm ps (.arguments [argument])
  | ended {ps : List Piece} {argument : Argument} (h : TypeForm ps (.argument argument)) :
      TypeForm (ps ++ [Piece.mark ","]) (.arguments [argument])
  | cons {ps qs : List Piece} {argument : Argument} {arguments : List Argument}
      (h : TypeForm ps (.argument argument)) (hRest : TypeForm qs (.arguments arguments)) :
      TypeForm (ps ++ Piece.mark "," :: qs) (.arguments (argument :: arguments))
  | bound {ps : List Piece} {segments : List Segment} (h : TypeForm ps (.segments false segments)) :
      TypeForm ps (.bounds [.trait false (.mk false segments)])
  | staticBound : TypeForm [.mark "'", .word "static"] (.bounds [.lifetime "'static"])
  | bounds {ps qs : List Piece} {segments : List Segment} {bounds : List Bound}
      (h : TypeForm ps (.segments false segments)) (hRest : TypeForm qs (.bounds bounds)) :
      TypeForm (ps ++ Piece.mark "+" :: qs) (.bounds (.trait false (.mk false segments) :: bounds))

def pathMarks (inExpr : Bool) : List Char := if inExpr then [':'] else [':', '<']

def pathGroups (inExpr : Bool) : List Delimiter := if inExpr then [] else [.parenthesis]

def TypePhrase.ParsedFrom (tokens : List Token) : TypePhrase → Prop
  | .type found => ∀ fuel sums rest, 16 * countAll tokens + 8 ≤ fuel →
      clear [':', '<'] [.parenthesis] rest = true →
      ty fuel sums (tokens ++ rest) = some (found, rest)
  | .sum found => ∀ fuel rest, 16 * countAll tokens + 8 ≤ fuel →
      clear [':', '<', '+'] [.parenthesis] rest = true →
      ty fuel true (tokens ++ rest) = some (found, rest)
  | .segments inExpr found => ∀ fuel rest, 16 * countAll tokens + 4 ≤ fuel →
      clear (pathMarks inExpr) (pathGroups inExpr) rest = true →
      Parser.segments fuel inExpr (tokens ++ rest) = some (found, rest)
  | .argument found => ∀ fuel rest, 16 * countAll tokens + 9 ≤ fuel →
      clear [':', '<', '='] [.parenthesis] rest = true →
      Parser.argument fuel (tokens ++ rest) = some (found, rest)
  | .arguments found => ∀ n fuel joined rest, tokens.length < n → 16 * countAll tokens + 9 ≤ fuel →
      commasBeforeUpTo (Parser.argument fuel) ">" n (tokens ++ Token.mark '>' joined :: rest)
        = some (found, .mark '>' joined :: rest)
  | .bounds found => ∀ fuel rest, 16 * countAll tokens + 7 ≤ fuel →
      clear [':', '<', '+'] [.parenthesis] rest = true →
      Parser.bounds fuel true (tokens ++ rest) = some (found, rest)

def TypePhrase.Parsed (ps : List Piece) (phrase : TypePhrase) : Prop :=
  ∀ ⦃tokens : List Token⦄, Spelled ps tokens → phrase.ParsedFrom tokens

namespace Parser

theorem run_segmentName {name : String} (h : isSegment name = true) (rest : List Token) :
    segmentName (.word name :: rest) = some (name, rest) := by
  have hName := (Bool.and_eq_true_iff.mp h).2
  rw [segmentName, if_pos]
  simpa [or_assoc] using hName

theorem run_ty_word {name : String} (hUnderscore : name ≠ "_") (hImpl : name ≠ "impl") (hDyn : name ≠ "dyn")
    (fuel : Nat) (sums : Bool) (rest : List Token) :
    ty (fuel + 1) sums (.word name :: rest)
      = (path fuel false (.word name :: rest)).map fun r => (.path r.1, r.2) := by
  rw [ty]
  simp [hUnderscore, hImpl, hDyn]

/-- A path has no arguments before tokens that are clear of what they would begin with. -/
theorem run_arguments_none {inExpr : Bool} {rest : List Token}
    (h : clear (pathMarks inExpr) (pathGroups inExpr) rest = true) (fuel : Nat) :
    arguments (fuel + 1) inExpr rest = some (.none, rest) := by
  have hColon : ∀ cs, afterMarks (':' :: cs) rest = none := by
    intro cs
    refine afterMarks_of_clear h ?_ cs
    cases inExpr <;> rfl
  have hTurbofish : atTurbofish rest = some (false, rest) := by
    rw [atTurbofish, hColon]
  rw [arguments]
  cases inExpr with
  | true => simp [hTurbofish, atAngle]
  | false =>
    have hAngle : afterMarks ['<'] rest = none := afterMarks_of_clear h rfl []
    have hGroup : isGroup .parenthesis rest = false := isGroup_of_clear h rfl
    simp [hTurbofish, atAngle, hAngle, hGroup]

theorem run_atSegment_of_clear {inExpr : Bool} {rest : List Token}
    (h : clear (pathMarks inExpr) (pathGroups inExpr) rest = true) :
    atSegment rest = some (false, rest) := by
  have hColon : afterMarks [':', ':'] rest = none := by
    refine afterMarks_of_clear h ?_ _
    cases inExpr <;> rfl
  rw [atSegment, hColon]

end Parser

theorem parsed_name {name : String} (inExpr : Bool) (hName : isSegment name = true) :
    TypePhrase.ParsedFrom [.word name] (.segments inExpr [.mk name .none]) := by
  intro fuel rest hFuel hClear
  obtain ⟨fuel, rfl⟩ : ∃ f, fuel = f + 2 := ⟨fuel - 2, by simp at hFuel; omega⟩
  rw [segments]
  simp [run_segmentName hName, run_arguments_none hClear, run_atSegment_of_clear hClear]

theorem run_arguments_colon (inExpr joined : Bool) (fuel : Nat) (name : String) (rest : List Token) :
    arguments (fuel + 1) inExpr (.mark ':' true :: .mark ':' joined :: .word name :: rest)
      = some (.none, .mark ':' true :: .mark ':' joined :: .word name :: rest) := by
  rw [arguments]
  cases inExpr <;> simp [atTurbofish, atAngle, afterMarks, isGroup]

theorem parsed_within {name : String} {inExpr joined : Bool} {tokens : List Token}
    {found : List Segment} (hName : isSegment name = true)
    (hStart : ∃ next more, tokens = .word next :: more)
    (h : TypePhrase.ParsedFrom tokens (.segments inExpr found)) :
    TypePhrase.ParsedFrom (.word name :: .mark ':' true :: .mark ':' joined :: tokens)
      (.segments inExpr (.mk name .none :: found)) := by
  intro fuel rest hFuel hClear
  simp only [countAll_word, countAll_mark] at hFuel
  obtain ⟨fuel, rfl⟩ : ∃ f, fuel = f + 2 := ⟨fuel - 2, by omega⟩
  have hRest := h (fuel + 1) rest (by omega) hClear
  obtain ⟨next, more, rfl⟩ := hStart
  rw [segments]
  simp only [List.cons_append] at hRest ⊢
  simp [run_segmentName hName, run_arguments_colon, atSegment, mark, afterMarks, hRest]

def beginsType : List Piece → Bool
  | .word _ :: _ => true
  | .mark text :: _ => text == "&" || text == "'"
  | .group delimiter _ :: _ => delimiter == .parenthesis
  | _ => false

theorem beginsType_append {front : List Piece} (h : beginsType front = true) (back : List Piece) :
    beginsType (front ++ back) = true := by
  cases front with
  | nil => cases h
  | cons piece front => cases piece <;> exact h

theorem TypeForm.begins {ps : List Piece} {phrase : TypePhrase} (h : TypeForm ps phrase) :
    beginsType ps = true := by
  induction h with
  | path _ ih => exact ih
  | plain _ ih => exact ih
  | argument _ ih => exact ih
  | last _ ih => exact ih
  | bound _ ih => exact ih
  | ended _ ih => exact beginsType_append ih _
  | cons _ _ ih => exact beginsType_append ih _
  | bounds _ _ ih => exact beginsType_append ih _
  | _ => rfl

/-- Segments begin with a word. -/
theorem TypeForm.segments_begin {ps : List Piece} {inExpr : Bool} {found : List Segment}
    (h : TypeForm ps (.segments inExpr found)) :
    ∃ name rest, ps = .word name :: rest ∧ isSegment name = true := by
  cases h with
  | name _ hName => exact ⟨_, _, rfl, hName⟩
  | angled hName => exact ⟨_, _, rfl, isSegment_of_isDeclarable hName⟩
  | within hName => exact ⟨_, _, rfl, hName⟩

/-- The tokens of a phrase of a type do not begin with a mark that could end one. -/
theorem clear_of_begins {ps : List Piece} {tokens : List Token} (h : beginsType ps = true)
    (hSpelled : Spelled ps tokens) (rest : List Token) :
    tokens ≠ [] ∧ clear ['>', '=', ',', ':', '<'] [] (tokens ++ rest) = true := by
  match ps, h with
  | .word name :: ps, _ =>
    obtain ⟨back, rfl, -⟩ := spelled_word hSpelled
    exact ⟨List.cons_ne_nil _ _, rfl⟩
  | .mark text :: ps, h =>
    rw [beginsType, Bool.or_eq_true, beq_iff_eq, beq_iff_eq] at h
    obtain rfl | rfl := h
    · obtain ⟨joined, back, rfl, -⟩ := spelled_one '&' rfl hSpelled
      exact ⟨List.cons_ne_nil _ _, rfl⟩
    · obtain ⟨joined, back, rfl, -⟩ := spelled_one '\x27' rfl hSpelled
      exact ⟨List.cons_ne_nil _ _, rfl⟩
  | .group delimiter inner :: ps, _ =>
    obtain ⟨within, back, rfl, -, -⟩ := spelled_group hSpelled
    exact ⟨List.cons_ne_nil _ _, rfl⟩

theorem run_angled {joined last : Bool} {tokens rest : List Token} {found : List Argument} {fuel : Nat}
    (h : TypePhrase.ParsedFrom tokens (.arguments found)) (hFuel : 16 * countAll tokens + 9 ≤ fuel) :
    angled (fuel + 1) (.mark '<' joined :: (tokens ++ Token.mark '>' last :: rest)) = some (found, rest) := by
  have hFound := h (tokens.length + (rest.length + 1) + 1) fuel last rest (by omega) hFuel
  rw [angled]
  simp [mark, commasBefore, hFound]

theorem pathWords_of_isName {name : String} (h : isName name = true) :
    name ∉ pathWords := by
  intro hMem
  simp only [pathWords, List.mem_cons, List.not_mem_nil, or_false] at hMem
  obtain rfl | rfl | rfl | rfl := hMem <;> revert h <;> decide

theorem parsed_angled {name : String} {joined last : Bool} {tokens : List Token}
    {found : List Argument} (hName : isDeclarable name = true)
    (hStart : ∀ rest, clear ['>', '=', ',', ':', '<'] [] (tokens ++ rest) = true)
    (h : TypePhrase.ParsedFrom tokens (.arguments found)) :
    TypePhrase.ParsedFrom (.word name :: .mark '<' joined :: (tokens ++ [Token.mark '>' last]))
      (.segments false [.mk name (.angled found)]) := by
  intro fuel rest hFuel hClear
  simp only [countAll_word, countAll_mark, countAll_append, countAll_nil] at hFuel
  obtain ⟨fuel, rfl⟩ : ∃ f, fuel = f + 3 := ⟨fuel - 3, by omega⟩
  have hAngled := @run_angled joined last _ rest _ _ h
    (show 16 * countAll tokens + 9 ≤ fuel by omega)
  have hEqual : afterMarks ['<', '='] (.mark '<' joined :: (tokens ++ Token.mark '>' last :: rest)) = none := by
    have hNext := afterMarks_of_clear (hStart (.mark '>' last :: rest)) (c := '=') rfl []
    cases joined <;> simp [afterMarks, hNext]
  have hArguments : arguments (fuel + 2) false (.mark '<' joined :: (tokens ++ Token.mark '>' last :: rest))
      = some (.angled found, rest) := by
    rw [arguments]
    simp [atTurbofish, atAngle, hEqual, hAngled]
  rw [segments]
  simp [run_segmentName (isSegment_of_isDeclarable hName),
    pathWords_of_isName (Bool.and_eq_true_iff.mp hName).2, hArguments, run_atSegment_of_clear hClear]

theorem parsed_path {tokens : List Token} {found : List Segment}
    (hStart : ∃ name more, tokens = .word name :: more ∧ isSegment name = true)
    (h : TypePhrase.ParsedFrom tokens (.segments false found)) (fuel : Nat) (rest : List Token)
    (hFuel : 16 * countAll tokens + 5 ≤ fuel) (hClear : clear [':', '<'] [.parenthesis] rest = true) :
    path fuel false (tokens ++ rest) = some (.mk false found, rest) := by
  obtain ⟨fuel, rfl⟩ : ∃ f, fuel = f + 1 := ⟨fuel - 1, by omega⟩
  have hFound := h fuel rest (by omega) hClear
  obtain ⟨name, more, rfl, -⟩ := hStart
  rw [path]
  rw [List.cons_append] at hFound ⊢
  simp [eatMark, hFound]

/-- Which tokens begin the tokens of a phrase that is spelled by them. -/
theorem clear_of_typeForm {ps : List Piece} {phrase : TypePhrase} {tokens : List Token}
    (h : TypeForm ps phrase) (hSpelled : Spelled ps tokens) (rest : List Token) :
    clear ['>', '=', ',', ':', '<'] [] (tokens ++ rest) = true :=
  (clear_of_begins h.begins hSpelled rest).2

theorem segments_start {ps : List Piece} {inExpr : Bool} {found : List Segment} {tokens : List Token}
    (h : TypeForm ps (.segments inExpr found)) (hSpelled : Spelled ps tokens) :
    ∃ name more, tokens = .word name :: more ∧ isSegment name = true := by
  obtain ⟨name, rest, rfl, hName⟩ := h.segments_begin
  obtain ⟨back, rfl, -⟩ := spelled_word hSpelled
  exact ⟨name, back, rfl, hName⟩

/-- Whether tokens begin as those of a type do: with a name, with parentheses or with a reference mark. -/
inductive BeginsType : List Token → Prop where
  | name {name : String} (hName : isSegment name = true) (back : List Token) : BeginsType (.word name :: back)
  | parentheses (within back : List Token) : BeginsType (.group .parenthesis within :: back)
  | reference (joined : Bool) (back : List Token) : BeginsType (.mark '&' joined :: back)

theorem beginsType_of_typeForm {ps : List Piece} {found : Ty} {tokens : List Token}
    (h : TypeForm ps (.type found)) (hSpelled : Spelled ps tokens) : BeginsType tokens := by
  have hReference : ∀ {qs}, Spelled (.mark "&" :: qs) tokens → BeginsType tokens := by
    intro qs hSpelled
    obtain ⟨joined, back, rfl, -⟩ := spelled_one '&' rfl hSpelled
    exact .reference joined back
  cases h with
  | path hSegments =>
    obtain ⟨name, more, rfl, hName⟩ := segments_start hSegments hSpelled
    exact .name hName more
  | unit =>
    obtain ⟨within, back, rfl, -, -⟩ := spelled_group hSpelled
    exact .parentheses within back
  | reference _ => exact hReference hSpelled
  | mutable _ => exact hReference hSpelled
  | static _ => exact hReference hSpelled

namespace BeginsType

variable {tokens : List Token}

theorem ne_nil (h : BeginsType tokens) : tokens ≠ [] := by
  cases h <;> exact List.cons_ne_nil _ _

theorem not_lifetime (h : BeginsType tokens) (rest : List Token) : isLifetime (tokens ++ rest) = false := by
  cases h <;> rfl

theorem not_literal (h : BeginsType tokens) (rest : List Token) : isLiteral (tokens ++ rest) = false := by
  cases h <;> rfl

theorem not_attribute (h : BeginsType tokens) (rest : List Token) : clear ['#'] [] (tokens ++ rest) = true := by
  cases h <;> rfl

/-- A type begins with no keyword. -/
theorem not_word (h : BeginsType tokens) (rest : List Token) (keyword : String)
    (hKeyword : isSegment keyword = false) : isThatWord keyword (tokens ++ rest) = false := by
  cases h with
  | name hName back =>
    rw [List.cons_append, isThatWord, beq_eq_false_iff_ne]
    exact ne_of_isSegment hName hKeyword
  | parentheses within back => rfl
  | reference joined back => rfl

end BeginsType

theorem run_ty_name {name : String} {fuel : Nat} {sums : Bool} {rest : List Token}
    (hName : isSegment name = true) (hFuel : 22 ≤ fuel)
    (hClear : clear [':', '<'] [.parenthesis] rest = true) :
    ty fuel sums (.word name :: rest) = some (.path (.mk false [.mk name .none]), rest) := by
  obtain ⟨fuel, rfl⟩ : ∃ f, fuel = f + 1 := ⟨fuel - 1, by omega⟩
  have hPath := parsed_path ⟨name, [], rfl, hName⟩ (parsed_name false hName) fuel rest
    (by simp; omega) hClear
  rw [List.singleton_append] at hPath
  rw [run_ty_word (ne_of_isSegment hName rfl) (ne_of_isSegment hName rfl) (ne_of_isSegment hName rfl),
    hPath]
  rfl

theorem run_bound {tokens rest : List Token} {found : List Segment} {fuel : Nat}
    (hStart : ∃ name more, tokens = .word name :: more ∧ isSegment name = true)
    (hPath : path fuel false (tokens ++ rest) = some (.mk false found, rest)) :
    Parser.bound (fuel + 1) (tokens ++ rest) = some (.trait false (.mk false found), rest) := by
  obtain ⟨name, more, rfl, -⟩ := hStart
  rw [List.cons_append] at hPath ⊢
  rw [Parser.bound]
  simp [isLifetime, eatMark, hPath]

theorem run_argument_type {tokens rest : List Token} {found : Ty} {fuel : Nat}
    (hQuote : isLifetime (tokens ++ rest) = false) (hLiteral : isLiteral (tokens ++ rest) = false)
    (hFound : ty fuel true (tokens ++ rest) = some (found, rest))
    (hClear : clear [':', '<', '='] [.parenthesis] rest = true) :
    argument (fuel + 1) (tokens ++ rest) = some (.type found, rest) := by
  have hEqual : afterMarks ['='] rest = none := afterMarks_of_clear hClear rfl []
  rw [argument]
  simp only [run_bind, run_ite, run_atLifetime, hQuote, run_atLiteral, hLiteral, hFound, andThen_some,
    Bool.false_eq_true, if_false]
  cases found with
  | path found =>
    cases hIdent : found.ident? with
    | none => simp [hIdent]
    | some name => simp [hIdent, eatMark, hEqual]
  | _ => rfl

/-! ## One form at a time -/

section

variable {ps qs : List Piece} {name : String} {type : Ty} {inExpr : Bool} {found : List Segment}

theorem parsed_pathType (h : TypeForm ps (.segments false found))
    (ih : TypePhrase.Parsed ps (.segments false found)) :
    TypePhrase.Parsed ps (.type (.path (.mk false found))) := by
  intro tokens hSpelled fuel sums rest hFuel hClear
  obtain ⟨fuel, rfl⟩ : ∃ f, fuel = f + 1 := ⟨fuel - 1, by omega⟩
  have hPath := parsed_path (segments_start h hSpelled) (ih hSpelled) fuel rest (by omega) hClear
  obtain ⟨name, more, rfl, hName⟩ := segments_start h hSpelled
  rw [List.cons_append] at hPath ⊢
  rw [run_ty_word (ne_of_isSegment hName rfl) (ne_of_isSegment hName rfl)
    (ne_of_isSegment hName rfl), hPath]
  rfl

theorem parsed_unitType : TypePhrase.Parsed [.group .parenthesis []] (.type (.tuple [])) := by
  intro tokens hSpelled fuel sums rest hFuel hClear
  obtain ⟨within, back, rfl, rfl, rfl⟩ := spelled_group hSpelled
  obtain ⟨fuel, rfl⟩ : ∃ f, fuel = f + 1 := ⟨fuel - 1, by omega⟩
  rw [ty.eq_def]
  simp [inGroup, whole, commas, commasUpTo]

theorem parsed_referenceType (h : TypeForm ps (.type type)) (ih : TypePhrase.Parsed ps (.type type)) :
    TypePhrase.Parsed (.mark "&" :: ps) (.type (.reference none false type)) := by
  intro tokens hSpelled fuel sums rest hFuel hClear
  obtain ⟨joined, back, rfl, hBack⟩ := spelled_one '&' rfl hSpelled
  have hBegins := beginsType_of_typeForm h hBack
  have hMut := hBegins.not_word rest "mut" rfl
  simp only [countAll_mark] at hFuel
  obtain ⟨fuel, rfl⟩ : ∃ f, fuel = f + 1 := ⟨fuel - 1, by omega⟩
  have hTarget := ih hBack fuel false rest (by omega) hClear
  rw [List.cons_append, ty.eq_def]
  simp [mark, lifetime?, hBegins.not_lifetime rest, run_eatWord_false hMut, hTarget]

theorem parsed_mutableType (ih : TypePhrase.Parsed ps (.type type)) :
    TypePhrase.Parsed (.mark "&" :: .word "mut" :: ps) (.type (.reference none true type)) := by
  intro tokens hSpelled fuel sums rest hFuel hClear
  obtain ⟨joined, back, rfl, hBack⟩ := spelled_one '&' rfl hSpelled
  obtain ⟨back, rfl, hLast⟩ := spelled_word hBack
  simp only [countAll_mark, countAll_word] at hFuel
  obtain ⟨fuel, rfl⟩ : ∃ f, fuel = f + 1 := ⟨fuel - 1, by omega⟩
  have hTarget := ih hLast fuel false rest (by omega) hClear
  rw [List.cons_append, List.cons_append, ty.eq_def]
  simp [mark, lifetime?, isLifetime, hTarget]

theorem parsed_staticType (h : TypeForm ps (.type type)) (ih : TypePhrase.Parsed ps (.type type)) :
    TypePhrase.Parsed (.mark "&" :: .mark "'" :: .word "static" :: ps)
      (.type (.reference (some "'static") false type)) := by
  intro tokens hSpelled fuel sums rest hFuel hClear
  obtain ⟨joined, back, rfl, hBack⟩ := spelled_one '&' rfl hSpelled
  obtain ⟨quoted, back, rfl, hWord⟩ := spelled_one '\x27' rfl hBack
  obtain ⟨back, rfl, hLast⟩ := spelled_word hWord
  have hMut := (beginsType_of_typeForm h hLast).not_word rest "mut" rfl
  simp only [countAll_mark, countAll_word] at hFuel
  obtain ⟨fuel, rfl⟩ : ∃ f, fuel = f + 1 := ⟨fuel - 1, by omega⟩
  have hTarget := ih hLast fuel false rest (by omega) hClear
  rw [List.cons_append, List.cons_append, List.cons_append, ty.eq_def]
  simp [mark, lifetime?, isLifetime, lifetime, run_eatWord_false hMut, hTarget]

theorem parsed_plain (ih : TypePhrase.Parsed ps (.type type)) : TypePhrase.Parsed ps (.sum type) := by
  intro tokens hSpelled fuel rest hFuel hClear
  exact ih hSpelled fuel true rest hFuel (clear_mono hClear (by simp) (by simp))

theorem parsed_implType {bounds : List Bound} (ih : TypePhrase.Parsed ps (.bounds bounds)) :
    TypePhrase.Parsed (.word "impl" :: ps) (.sum (.impl bounds)) := by
  intro tokens hSpelled fuel rest hFuel hClear
  obtain ⟨back, rfl, hBack⟩ := spelled_word hSpelled
  simp only [countAll_word] at hFuel
  obtain ⟨fuel, rfl⟩ : ∃ f, fuel = f + 1 := ⟨fuel - 1, by omega⟩
  have hBounds := ih hBack fuel rest (by omega) hClear
  rw [List.cons_append, ty.eq_def]
  simp [hBounds]

theorem parsed_nameSegments (inExpr : Bool) (hName : isSegment name = true) :
    TypePhrase.Parsed [.word name] (.segments inExpr [.mk name .none]) := by
  intro tokens hSpelled
  obtain ⟨back, rfl, rfl⟩ := spelled_word hSpelled
  exact parsed_name inExpr hName

theorem parsed_angledSegments {values : List Argument} (hName : isDeclarable name = true)
    (h : TypeForm ps (.arguments values)) (ih : TypePhrase.Parsed ps (.arguments values)) :
    TypePhrase.Parsed (.word name :: .mark "<" :: (ps ++ [Piece.mark ">"]))
      (.segments false [.mk name (.angled values)]) := by
  intro tokens hSpelled
  obtain ⟨back, rfl, hBack⟩ := spelled_word hSpelled
  obtain ⟨joined, back, rfl, hRest⟩ := spelled_one '<' rfl hBack
  obtain ⟨inner, back, rfl, hInner, hLast⟩ := spelled_append hRest
  obtain ⟨last, back, rfl, rfl⟩ := spelled_one '>' rfl hLast
  exact parsed_angled hName (clear_of_typeForm h hInner) (ih hInner)

theorem parsed_withinSegments (hName : isSegment name = true) (h : TypeForm ps (.segments inExpr found))
    (ih : TypePhrase.Parsed ps (.segments inExpr found)) :
    TypePhrase.Parsed (.word name :: .mark "::" :: ps) (.segments inExpr (.mk name .none :: found)) := by
  intro tokens hSpelled
  obtain ⟨back, rfl, hBack⟩ := spelled_word hSpelled
  obtain ⟨joined, back, rfl, hRest⟩ := spelled_two ':' ':' rfl hBack
  obtain ⟨next, more, rfl, hNext⟩ := segments_start h hRest
  exact parsed_within hName ⟨next, more, rfl⟩ (ih hRest)

theorem parsed_typeArgument (h : TypeForm ps (.type type)) (ih : TypePhrase.Parsed ps (.type type)) :
    TypePhrase.Parsed ps (.argument (.type type)) := by
  intro tokens hSpelled fuel rest hFuel hClear
  have hBegins := beginsType_of_typeForm h hSpelled
  obtain ⟨fuel, rfl⟩ : ∃ f, fuel = f + 1 := ⟨fuel - 1, by omega⟩
  apply run_argument_type (hBegins.not_lifetime rest) (hBegins.not_literal rest) _ hClear
  exact ih hSpelled fuel true rest (by omega) (clear_mono hClear (by simp) (by simp))

theorem parsed_equality (hName : isDeclarable name = true) (ih : TypePhrase.Parsed ps (.type type)) :
    TypePhrase.Parsed (.word name :: .mark "=" :: ps) (.argument (.equality name type)) := by
  intro tokens hSpelled fuel rest hFuel hClear
  obtain ⟨back, rfl, hBack⟩ := spelled_word hSpelled
  obtain ⟨joined, back, rfl, hLast⟩ := spelled_one '=' rfl hBack
  simp only [countAll_word, countAll_mark] at hFuel
  obtain ⟨fuel, rfl⟩ : ∃ f, fuel = f + 1 := ⟨fuel - 1, by omega⟩
  have hEqual : afterMarks ['='] (.mark '=' joined :: (back ++ rest)) = some (back ++ rest) :=
    afterMarks_last _ _ _
  have hType := ih hLast fuel true rest (by omega) (clear_mono hClear (by simp) (by simp))
  -- the name is read as a type, and taken for a name when the mark shows up behind it
  have hLead : ty fuel true (.word name :: .mark '=' joined :: (back ++ rest))
      = some (.path (.mk false [.mk name .none]), .mark '=' joined :: (back ++ rest)) :=
    run_ty_name (isSegment_of_isDeclarable hName) (by omega) rfl
  rw [List.cons_append, List.cons_append, argument]
  simp [isLifetime, isLiteral, hLead, Path.ident?, eatMark, hType]

section

variable {value : Argument} {values : List Argument}

theorem parsed_lastArgument (h : TypeForm ps (.argument value))
    (ih : TypePhrase.Parsed ps (.argument value)) : TypePhrase.Parsed ps (.arguments [value]) := by
  intro tokens hSpelled n fuel joined rest hLength hFuel
  obtain ⟨n, rfl⟩ : ∃ m, n = m + 1 := ⟨n - 1, by omega⟩
  have hFirst := afterMarks_of_clear (clear_of_typeForm h hSpelled (.mark '>' joined :: rest)) (c := '>') rfl []
  have hArgument := ih hSpelled fuel (.mark '>' joined :: rest) hFuel rfl
  rw [commasBeforeUpTo]
  simp [hFirst, hArgument]

theorem parsed_endedArgument (h : TypeForm ps (.argument value))
    (ih : TypePhrase.Parsed ps (.argument value)) :
    TypePhrase.Parsed (ps ++ [Piece.mark ","]) (.arguments [value]) := by
  intro tokens hSpelled n fuel joined rest hLength hFuel
  obtain ⟨front, back, rfl, hFront, hBack⟩ := spelled_append hSpelled
  obtain ⟨comma, back, rfl, rfl⟩ := spelled_one ',' rfl hBack
  simp only [countAll_append, countAll_mark, countAll_nil, List.length_append, List.length_cons,
    List.length_nil] at hLength hFuel
  obtain ⟨n, rfl⟩ : ∃ m, n = m + 2 := ⟨n - 2, by omega⟩
  have hFirst := afterMarks_of_clear
    (clear_of_typeForm h hFront (.mark ',' comma :: .mark '>' joined :: rest)) (c := '>') rfl []
  have hArgument := ih hFront fuel (.mark ',' comma :: .mark '>' joined :: rest) (by omega) rfl
  rw [commasBeforeUpTo]
  simp [hFirst, hArgument, mark]
  rw [commasBeforeUpTo]
  simp

theorem parsed_consArguments (h : TypeForm ps (.argument value))
    (ih : TypePhrase.Parsed ps (.argument value)) (ihRest : TypePhrase.Parsed qs (.arguments values)) :
    TypePhrase.Parsed (ps ++ Piece.mark "," :: qs) (.arguments (value :: values)) := by
  intro tokens hSpelled n fuel joined rest hLength hFuel
  obtain ⟨front, back, rfl, hFront, hBack⟩ := spelled_append hSpelled
  obtain ⟨comma, back, rfl, hMore⟩ := spelled_one ',' rfl hBack
  simp only [countAll_append, countAll_mark, List.length_append, List.length_cons] at hLength hFuel
  obtain ⟨n, rfl⟩ : ∃ m, n = m + 1 := ⟨n - 1, by omega⟩
  have hFirst := afterMarks_of_clear
    (clear_of_typeForm h hFront (.mark ',' comma :: (back ++ Token.mark '>' joined :: rest))) (c := '>') rfl []
  have hArgument := ih hFront fuel (.mark ',' comma :: (back ++ Token.mark '>' joined :: rest))
    (by omega) rfl
  have hRest := ihRest hMore n fuel joined rest (by omega) (by omega)
  rw [commasBeforeUpTo]
  simp [hFirst, hArgument, mark, hRest]

end

theorem parsed_bound (h : TypeForm ps (.segments false found))
    (ih : TypePhrase.Parsed ps (.segments false found)) :
    TypePhrase.Parsed ps (.bounds [.trait false (.mk false found)]) := by
  intro tokens hSpelled fuel rest hFuel hClear
  obtain ⟨fuel, rfl⟩ : ∃ f, fuel = f + 2 := ⟨fuel - 2, by omega⟩
  have hPlus : afterMarks ['+'] rest = none := afterMarks_of_clear hClear rfl []
  have hPath := parsed_path (segments_start h hSpelled) (ih hSpelled) fuel rest (by omega)
    (clear_mono hClear (by simp) (by simp))
  have hBound := run_bound (segments_start h hSpelled) hPath
  rw [Parser.bounds]
  simp [hBound, eatMark, hPlus]

theorem parsed_staticBound :
    TypePhrase.Parsed [.mark "'", .word "static"] (.bounds [.lifetime "'static"]) := by
  intro tokens hSpelled fuel rest hFuel hClear
  obtain ⟨quoted, back, rfl, hWord⟩ := spelled_one '\x27' rfl hSpelled
  obtain ⟨back, rfl, rfl⟩ := spelled_word hWord
  obtain ⟨fuel, rfl⟩ : ∃ f, fuel = f + 2 := ⟨fuel - 2, by omega⟩
  have hPlus : afterMarks ['+'] rest = none := afterMarks_of_clear hClear rfl []
  rw [Parser.bounds, Parser.bound]
  simp [isLifetime, lifetime, eatMark, hPlus]

theorem parsed_bounds {bounds : List Bound} (h : TypeForm ps (.segments false found))
    (ih : TypePhrase.Parsed ps (.segments false found)) (ihRest : TypePhrase.Parsed qs (.bounds bounds)) :
    TypePhrase.Parsed (ps ++ Piece.mark "+" :: qs) (.bounds (.trait false (.mk false found) :: bounds)) := by
  intro tokens hSpelled fuel rest hFuel hClear
  obtain ⟨front, back, rfl, hFront, hBack⟩ := spelled_append hSpelled
  obtain ⟨joined, back, rfl, hMore⟩ := spelled_one '+' rfl hBack
  simp only [countAll_append, countAll_mark] at hFuel
  obtain ⟨fuel, rfl⟩ : ∃ f, fuel = f + 2 := ⟨fuel - 2, by omega⟩
  have hPath := parsed_path (segments_start h hFront) (ih hFront) fuel
    (.mark '+' joined :: (back ++ rest)) (by omega) rfl
  have hBound := run_bound (segments_start h hFront) hPath
  have hRest := ihRest hMore (fuel + 1) rest (by omega) hClear
  rw [Parser.bounds]
  simp [hBound, eatMark, hRest]

end

/-- The parser takes all of a phrase of a type and stops behind it. -/
theorem parsed_of_typeForm {ps : List Piece} {phrase : TypePhrase} (h : TypeForm ps phrase) :
    phrase.Parsed ps := by
  induction h with
  | path h ih => exact parsed_pathType h ih
  | unit => exact parsed_unitType
  | reference h ih => exact parsed_referenceType h ih
  | mutable _ ih => exact parsed_mutableType ih
  | static h ih => exact parsed_staticType h ih
  | plain _ ih => exact parsed_plain ih
  | impl _ ih => exact parsed_implType ih
  | name inExpr hName => exact parsed_nameSegments inExpr hName
  | angled hName h ih => exact parsed_angledSegments hName h ih
  | within hName h ih => exact parsed_withinSegments hName h ih
  | argument h ih => exact parsed_typeArgument h ih
  | equality hName _ ih => exact parsed_equality hName ih
  | last h ih => exact parsed_lastArgument h ih
  | ended h ih => exact parsed_endedArgument h ih
  | cons h _ ih ihRest => exact parsed_consArguments h ih ihRest
  | bound h ih => exact parsed_bound h ih
  | staticBound => exact parsed_staticBound
  | bounds h _ ih ihRest => exact parsed_bounds h ih ihRest

end ProtoBind.Source
