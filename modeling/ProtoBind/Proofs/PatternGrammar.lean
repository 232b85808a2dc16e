import ProtoBind.Proofs.TypeGrammar
import ProtoBind.Source.Parser.Pat

/-!
# The grammar of patterns

The patterns that emitted source is made of, and that they are parsed.
-/

set_option autoImplicit false

namespace ProtoBind.Source

open Text ProtoBind.Source.Parser

inductive PatternPhrase where
  | pattern (pattern : Pat)
  /-- Patterns with commas between them. -/
  | elements (elements : List Pat)

inductive PatternForm : List Piece → PatternPhrase → Prop where
  | wild : PatternForm [.word "_"] (.pattern .wild)
  | number {text : String} (hText : isNumber text = true) :
      PatternForm [.literal text] (.pattern (.literal text))
  | negative {text : String} (hText : isNumber text = true) :
      PatternForm [.mark "-", .literal text] (.pattern (.literal ("-" ++ text)))
  | bind {name : String} (hName : isDeclarable name = true) :
      PatternForm [.word name] (.pattern (.bind false false name none))
  | mutable {name : String} (hName : isDeclarable name = true) :
      PatternForm [.word "mut", .word name] (.pattern (.bind false true name none))
  | tupleStruct {ps qs : List Piece} {segments : List Segment} {elements : List Pat}
      (hLead : ∃ name rest, ps = .word name :: rest ∧ isName name = true)
      (hPath : TypeForm ps (.segments true segments)) (h : PatternForm qs (.elements elements)) :
      PatternForm (ps ++ [Piece.group .parenthesis qs])
        (.pattern (.tupleStruct (.mk false segments) elements))
  | last {ps : List Piece} {pattern : Pat} (h : PatternForm ps (.pattern pattern)) :
      PatternForm ps (.elements [pattern])
  | ended {ps : List Piece} {pattern : Pat} (h : PatternForm ps (.pattern pattern)) :
      PatternForm (ps ++ [Piece.mark ","]) (.elements [pattern])
  | cons {ps qs : List Piece} {pattern : Pat} {elements : List Pat}
      (h : PatternForm ps (.pattern pattern)) (hRest : PatternForm qs (.elements elements)) :
      PatternForm (ps ++ Piece.mark "," :: qs) (.elements (pattern :: elements))

def endsPattern (rest : List Token) : Bool :=
  clear ['.', '!', '@', '|'] [.parenthesis, .brace] rest && (afterMarks [':', ':'] rest).isNone

@[simp] theorem endsPattern_comma (joined : Bool) (rest : List Token) :
    endsPattern (.mark ',' joined :: rest) = true := by
  simp [endsPattern, clear]

def PatternPhrase.ParsedFrom (tokens : List Token) : PatternPhrase → Prop
  | .pattern found => ∀ fuel rest, 16 * countAll tokens + 4 ≤ fuel → endsPattern rest = true →
      Parser.pattern fuel (tokens ++ rest) = some (found, rest)
  | .elements found => ∀ n fuel, tokens.length < n → 16 * countAll tokens + 6 ≤ fuel →
      ∃ ended, commasUpTo (patterns fuel) n tokens = some ((found, ended), [])

/-- What a pattern begins with is no bar. -/
theorem PatternForm.begins {ps : List Piece} {phrase : PatternPhrase} (h : PatternForm ps phrase) :
    ∀ {tokens : List Token}, Spelled ps tokens →
      tokens ≠ [] ∧ ∀ rest, clear ['|', ',', '.', '?'] [] (tokens ++ rest) = true := by
  induction h with
  | wild =>
    intro tokens hSpelled
    obtain ⟨back, rfl, -⟩ := spelled_word hSpelled
    exact ⟨List.cons_ne_nil _ _, fun _ => rfl⟩
  | number _ =>
    intro tokens hSpelled
    obtain ⟨back, rfl, -⟩ := spelled_literal hSpelled
    exact ⟨List.cons_ne_nil _ _, fun _ => rfl⟩
  | negative _ =>
    intro tokens hSpelled
    obtain ⟨joined, back, rfl, -⟩ := spelled_one '-' rfl hSpelled
    exact ⟨List.cons_ne_nil _ _, fun _ => rfl⟩
  | bind _ =>
    intro tokens hSpelled
    obtain ⟨back, rfl, -⟩ := spelled_word hSpelled
    exact ⟨List.cons_ne_nil _ _, fun _ => rfl⟩
  | mutable _ =>
    intro tokens hSpelled
    obtain ⟨back, rfl, -⟩ := spelled_word hSpelled
    exact ⟨List.cons_ne_nil _ _, fun _ => rfl⟩
  | tupleStruct hLead _ _ _ =>
    intro tokens hSpelled
    obtain ⟨name, rest, rfl, -⟩ := hLead
    obtain ⟨back, rfl, -⟩ := spelled_word hSpelled
    exact ⟨List.cons_ne_nil _ _, fun _ => rfl⟩
  | last _ ih => exact ih
  | ended _ ih =>
    intro tokens hSpelled
    obtain ⟨front, back, rfl, hFront, -⟩ := spelled_append hSpelled
    obtain ⟨hNe, hClear⟩ := ih hFront
    refine ⟨List.append_ne_nil_of_left_ne_nil hNe _, ?_⟩
    intro rest
    rw [List.append_assoc]
    exact hClear _
  | cons _ _ ih _ =>
    intro tokens hSpelled
    obtain ⟨front, back, rfl, hFront, -⟩ := spelled_append hSpelled
    obtain ⟨hNe, hClear⟩ := ih hFront
    refine ⟨List.append_ne_nil_of_left_ne_nil hNe _, ?_⟩
    intro rest
    rw [List.append_assoc]
    exact hClear _

/-- What a pattern begins with does not go on with a condition either. -/
theorem PatternForm.begins_no_branch {ps : List Piece} {phrase : PatternPhrase} (h : PatternForm ps phrase) :
    ∀ {tokens : List Token}, Spelled ps tokens → ∀ rest, isThatWord "else" (tokens ++ rest) = false := by
  have hWord : ∀ {name : String} {rest : List Token}, isName name = true →
      isThatWord "else" (.word name :: rest) = false := by
    intro name rest hName
    rw [isThatWord, beq_eq_false_iff_ne]
    rintro rfl
    cases hName
  induction h with
  | wild =>
    intro tokens hSpelled rest
    obtain ⟨back, rfl, -⟩ := spelled_word hSpelled
    rfl
  | number _ =>
    intro tokens hSpelled rest
    obtain ⟨back, rfl, -⟩ := spelled_literal hSpelled
    rfl
  | negative _ =>
    intro tokens hSpelled rest
    obtain ⟨joined, back, rfl, -⟩ := spelled_one '-' rfl hSpelled
    rfl
  | bind hName =>
    intro tokens hSpelled rest
    obtain ⟨back, rfl, -⟩ := spelled_word hSpelled
    exact hWord (Bool.and_eq_true_iff.mp hName).2
  | mutable _ =>
    intro tokens hSpelled rest
    obtain ⟨back, rfl, -⟩ := spelled_word hSpelled
    rfl
  | tupleStruct hLead _ _ _ =>
    intro tokens hSpelled rest
    obtain ⟨name, more, rfl, hName⟩ := hLead
    obtain ⟨back, rfl, -⟩ := spelled_word hSpelled
    exact hWord hName
  | last _ ih => exact ih
  | ended _ ih =>
    intro tokens hSpelled rest
    obtain ⟨front, back, rfl, hFront, -⟩ := spelled_append hSpelled
    rw [List.append_assoc]
    exact ih hFront _
  | cons _ _ ih _ =>
    intro tokens hSpelled rest
    obtain ⟨front, back, rfl, hFront, -⟩ := spelled_append hSpelled
    rw [List.append_assoc]
    exact ih hFront _

theorem run_patterns {tokens rest : List Token} {found : Pat} {fuel : Nat}
    (hStart : clear ['|', ',', '.', '?'] [] (tokens ++ rest) = true) (hEnd : endsPattern rest = true)
    (hFound : Parser.pattern fuel (tokens ++ rest) = some (found, rest)) :
    patterns (fuel + 1) (tokens ++ rest) = some (found, rest) := by
  have hBefore : afterMarks ['|'] (tokens ++ rest) = none := afterMarks_of_clear hStart rfl []
  have hAfter : afterMarks ['|'] rest = none :=
    afterMarks_of_clear (Bool.and_eq_true_iff.mp hEnd).1 rfl []
  rw [patterns]
  simp [eatMark, hBefore, separated, separatedUpTo, hFound, hAfter]

theorem ne_of_isName {name other : String} (h : isName name = true) (hOther : isName other = false) :
    name ≠ other := by
  rintro rfl
  rw [h] at hOther
  cases hOther

theorem run_binding {name : String} {rest : List Token} {fuel : Nat} (hName : isName name = true)
    (hEnd : endsPattern rest = true) :
    binding (fuel + 1) (.word name :: rest) = some (.bind false false name none, rest) := by
  have hAt : afterMarks ['@'] rest = none :=
    afterMarks_of_clear (Bool.and_eq_true_iff.mp hEnd).1 rfl []
  have hRef : name ≠ "ref" := ne_of_isName hName rfl
  have hMut : name ≠ "mut" := ne_of_isName hName rfl
  have hSelf : name ≠ "self" := ne_of_isName hName rfl
  rw [binding]
  simp [hRef, hMut, hSelf, isThatWord, run_name hName, eatMark, hAt]

theorem run_binding_mutable {name : String} {rest : List Token} {fuel : Nat}
    (hName : isName name = true) (hEnd : endsPattern rest = true) :
    binding (fuel + 1) (.word "mut" :: .word name :: rest) = some (.bind false true name none, rest) := by
  have hAt : afterMarks ['@'] rest = none :=
    afterMarks_of_clear (Bool.and_eq_true_iff.mp hEnd).1 rfl []
  have hSelf : name ≠ "self" := ne_of_isName hName rfl
  rw [binding]
  simp [hSelf, isThatWord, run_name hName, eatMark, hAt]

theorem atBinding_of_ends {name : String} {rest : List Token} (hName : isName name = true)
    (hEnd : endsPattern rest = true) : atBinding (.word name :: rest) = some (true, .word name :: rest) := by
  obtain ⟨hClear, hColons⟩ := Bool.and_eq_true_iff.mp hEnd
  have hDots : afterMarks ['.', '.'] rest = none := afterMarks_of_clear hClear rfl _
  rw [atBinding, hName, if_neg (by simp)]
  · rw [hColons, hDots]
    rfl
  · rintro inner tail rfl
    exact absurd hClear (by simp [clear])
  · rintro inner tail rfl
    exact absurd hClear (by simp [clear])
  · rintro joined tail rfl
    exact absurd hClear (by simp [clear])

theorem run_pattern_word {name : String} {rest : List Token} {fuel : Nat} (hName : isName name = true) :
    Parser.pattern (fuel + 1) (.word name :: rest)
      = andThen (atBinding (.word name :: rest)) fun bound =>
          if bound then binding fuel else pathPattern fuel := by
  have hUnderscore : name ≠ "_" := ne_of_isName hName rfl
  have hRef : name ≠ "ref" := ne_of_isName hName rfl
  have hMut : name ≠ "mut" := ne_of_isName hName rfl
  have hTrue : name ≠ "true" := ne_of_isName hName rfl
  have hFalse : name ≠ "false" := ne_of_isName hName rfl
  rw [Parser.pattern.eq_def]
  simp [hUnderscore, hRef, hMut, hTrue, hFalse]

/-- A name before a group or more of a path is not bound. -/
theorem atBinding_path {name : String} {ps : List Piece} {found : List Segment} {back : List Token}
    (hName : isName name = true) (hPath : TypeForm (.word name :: ps) (.segments true found))
    (hSpelled : Spelled ps back) (inner rest : List Token) :
    atBinding (.word name :: (back ++ Token.group .parenthesis inner :: rest))
      = some (false, .word name :: (back ++ Token.group .parenthesis inner :: rest)) := by
  generalize hPieces : Piece.word name :: ps = pieces at hPath
  cases hPath with
  | name _ _ =>
    obtain ⟨-, rfl⟩ := List.cons.inj hPieces
    cases hSpelled
    simp [atBinding, hName]
  | within _ _ =>
    obtain ⟨-, rfl⟩ := List.cons.inj hPieces
    obtain ⟨joined, back, rfl, -⟩ := spelled_two ':' ':' rfl hSpelled
    simp [atBinding, hName]

theorem parsed_tupleStruct {ps qs : List Piece} {segments : List Segment} {elements : List Pat}
    {tokens : List Token} (hLead : ∃ name rest, ps = .word name :: rest ∧ isName name = true)
    (hPath : TypeForm ps (.segments true segments))
    (h : ∀ {inner : List Token}, Spelled qs inner →
      PatternPhrase.ParsedFrom inner (.elements elements))
    (hSpelled : Spelled (ps ++ [Piece.group .parenthesis qs]) tokens) :
    PatternPhrase.ParsedFrom tokens (.pattern (.tupleStruct (.mk false segments) elements)) := by
  intro fuel rest hFuel hEnd
  obtain ⟨front, back, rfl, hFront, hBack⟩ := spelled_append hSpelled
  obtain ⟨inner, back, rfl, hInner, rfl⟩ := spelled_group hBack
  simp only [countAll_append, countAll_group, countAll_nil] at hFuel
  obtain ⟨fuel, rfl⟩ : ∃ f, fuel = f + 3 := ⟨fuel - 3, by omega⟩
  obtain ⟨ended, hElements⟩ := h hInner (inner.length + 1) (fuel + 1) (by omega) (by omega)
  have hFound := parsed_of_typeForm hPath hFront fuel (.group .parenthesis inner :: rest)
    (by omega) rfl
  obtain ⟨name, more, rfl, hName⟩ := hLead
  obtain ⟨front, rfl, hMore⟩ := spelled_word hFront
  have hAt := atBinding_path hName hPath hMore inner rest
  have hGroup : inGroup .parenthesis (commas (patterns (fuel + 1))) (.group .parenthesis inner :: rest)
      = some ((elements, ended), rest) := run_inGroup hElements rest
  rw [List.append_assoc, List.cons_append, List.singleton_append, run_pattern_word hName, hAt]
  simp only [andThen_some, Bool.false_eq_true, if_false]
  rw [pathPattern, Parser.path]
  rw [List.cons_append] at hFound
  simp [eatMark, hFound, isGroup, hGroup]

/-- The parser takes all of a pattern and stops behind it. -/
theorem parsed_of_patternForm {ps : List Piece} {phrase : PatternPhrase} (h : PatternForm ps phrase) :
    ∀ {tokens : List Token}, Spelled ps tokens → phrase.ParsedFrom tokens := by
  induction h with
  | wild =>
    intro tokens hSpelled fuel rest hFuel hEnd
    obtain ⟨back, rfl, rfl⟩ := spelled_word hSpelled
    obtain ⟨fuel, rfl⟩ : ∃ f, fuel = f + 1 := ⟨fuel - 1, by omega⟩
    rw [Parser.pattern.eq_def]
    simp
  | number _ =>
    intro tokens hSpelled fuel rest hFuel hEnd
    obtain ⟨back, rfl, rfl⟩ := spelled_literal hSpelled
    obtain ⟨fuel, rfl⟩ : ∃ f, fuel = f + 1 := ⟨fuel - 1, by omega⟩
    have hDots := afterMarks_of_clear (Bool.and_eq_true_iff.mp hEnd).1 (c := '.') rfl
    rw [Parser.pattern.eq_def]
    simp [patternLiteral, eatMark, hDots]
  | negative _ =>
    intro tokens hSpelled fuel rest hFuel hEnd
    obtain ⟨joined, back, rfl, hBack⟩ := spelled_one '-' rfl hSpelled
    obtain ⟨back, rfl, rfl⟩ := spelled_literal hBack
    obtain ⟨fuel, rfl⟩ : ∃ f, fuel = f + 1 := ⟨fuel - 1, by omega⟩
    have hDots := afterMarks_of_clear (Bool.and_eq_true_iff.mp hEnd).1 (c := '.') rfl
    rw [Parser.pattern.eq_def]
    simp [patternLiteral, eatMark, hDots]
  | bind hName =>
    intro tokens hSpelled fuel rest hFuel hEnd
    obtain ⟨back, rfl, rfl⟩ := spelled_word hSpelled
    obtain ⟨fuel, rfl⟩ : ∃ f, fuel = f + 2 := ⟨fuel - 2, by omega⟩
    have hName := (Bool.and_eq_true_iff.mp hName).2
    rw [List.singleton_append, run_pattern_word hName, atBinding_of_ends hName hEnd]
    simp [run_binding hName hEnd]
  | mutable hName =>
    intro tokens hSpelled fuel rest hFuel hEnd
    obtain ⟨back, rfl, hBack⟩ := spelled_word hSpelled
    obtain ⟨back, rfl, rfl⟩ := spelled_word hBack
    obtain ⟨fuel, rfl⟩ : ∃ f, fuel = f + 2 := ⟨fuel - 2, by omega⟩
    have hName := (Bool.and_eq_true_iff.mp hName).2
    rw [List.cons_append, List.singleton_append, Parser.pattern.eq_def]
    simp [run_binding_mutable hName hEnd]
  | tupleStruct hLead hPath _ ih =>
    intro tokens hSpelled
    exact parsed_tupleStruct hLead hPath ih hSpelled
  | last h ih =>
    intro tokens hSpelled n fuel hLength hFuel
    obtain ⟨hNe, hStart⟩ := h.begins hSpelled
    obtain ⟨n, rfl⟩ : ∃ m, n = m + 1 := ⟨n - 1, by omega⟩
    obtain ⟨fuel, rfl⟩ : ∃ f, fuel = f + 1 := ⟨fuel - 1, by omega⟩
    have hFound := run_patterns (hStart []) rfl (ih hSpelled fuel [] (by omega) rfl)
    rw [List.append_nil] at hFound
    exact ⟨false, run_commasUpTo_last hNe hFound n⟩
  | ended h ih =>
    intro tokens hSpelled n fuel hLength hFuel
    obtain ⟨front, back, rfl, hFront, hBack⟩ := spelled_append hSpelled
    obtain ⟨joined, back, rfl, rfl⟩ := spelled_one ',' rfl hBack
    simp only [countAll_append, countAll_mark, countAll_nil] at hFuel
    obtain ⟨hNe, hStart⟩ := h.begins hFront
    obtain ⟨n, rfl⟩ : ∃ m, n = m + 1 := ⟨n - 1, by omega⟩
    obtain ⟨fuel, rfl⟩ : ∃ f, fuel = f + 1 := ⟨fuel - 1, by omega⟩
    have hFound := run_patterns (hStart [.mark ',' joined]) (by simp)
      (ih hFront fuel [.mark ',' joined] (by omega) (by simp))
    exact ⟨true, run_commasUpTo_ended (List.append_ne_nil_of_left_ne_nil hNe _) hFound n⟩
  | cons h hRest ih ihRest =>
    intro tokens hSpelled n fuel hLength hFuel
    obtain ⟨front, back, rfl, hFront, hBack⟩ := spelled_append hSpelled
    obtain ⟨joined, back, rfl, hMore⟩ := spelled_one ',' rfl hBack
    simp only [countAll_append, countAll_mark, List.length_append, List.length_cons] at hFuel hLength
    obtain ⟨hNe, hStart⟩ := h.begins hFront
    obtain ⟨n, rfl⟩ : ∃ m, n = m + 1 := ⟨n - 1, by omega⟩
    obtain ⟨fuel, rfl⟩ : ∃ f, fuel = f + 1 := ⟨fuel - 1, by omega⟩
    have hFound := run_patterns (hStart (.mark ',' joined :: back)) (by simp)
      (ih hFront fuel (.mark ',' joined :: back) (by omega) (by simp))
    obtain ⟨ended, hRestFound⟩ := ihRest hMore n (fuel + 1) (by omega) (by omega)
    exact ⟨ended, run_commasUpTo_cons (List.append_ne_nil_of_left_ne_nil hNe _) hFound
      (hRest.begins hMore).1 hRestFound⟩

end ProtoBind.Source
