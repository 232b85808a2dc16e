import ProtoBind.Proofs.Lexing

/-!
# Sentences

A sequence of lexemes with matching delimiters, as a tree. Lexing gives it tokens, all but fixed: of
each run of marks it is open whether the last one is joined to more.
-/

set_option autoImplicit false

namespace ProtoBind.Source

/-- A lexeme, or a sequence of them between delimiters. -/
inductive Piece where
  | word (name : String)
  | literal (text : String)
  | mark (text : String)
  | remark (comment : DocComment)
  | group (delimiter : Delimiter) (inner : List Piece)

mutual

def Piece.lexemes : Piece → List Lexeme
  | .word name => [.word name]
  | .literal text => [.literal text]
  | .mark text => [.mark text]
  | .remark comment => [.remark comment]
  | .group delimiter inner => .opening delimiter :: (lexemesOf inner ++ [.closing delimiter])

def lexemesOf : List Piece → List Lexeme
  | [] => []
  | piece :: rest => piece.lexemes ++ lexemesOf rest

end

mutual

def Piece.Spelled : Piece → List Token → Prop
  | .word name, tokens => tokens = [.word name]
  | .literal text, tokens => tokens = [.literal text]
  | .mark text, tokens => ∃ joined, tokens = marks text.toList joined
  | .remark comment, tokens => tokens = comment.tokens
  | .group delimiter inner, tokens => ∃ within, tokens = [.group delimiter within] ∧ Spelled inner within

def Spelled : List Piece → List Token → Prop
  | [], tokens => tokens = []
  | piece :: rest, tokens =>
    ∃ front back, tokens = front ++ back ∧ piece.Spelled front ∧ Spelled rest back

end

@[simp] theorem lexemesOf_nil : lexemesOf [] = [] := rfl

theorem lexemesOf_cons (piece : Piece) (rest : List Piece) :
    lexemesOf (piece :: rest) = piece.lexemes ++ lexemesOf rest := rfl

theorem lexemesOf_append (front back : List Piece) :
    lexemesOf (front ++ back) = lexemesOf front ++ lexemesOf back := by
  induction front with
  | nil => rfl
  | cons piece front ih => rw [List.cons_append, lexemesOf, lexemesOf, ih, List.append_assoc]

@[simp] theorem lexemesOf_word (name : String) (rest : List Piece) :
    lexemesOf (.word name :: rest) = .word name :: lexemesOf rest := rfl

@[simp] theorem lexemesOf_literal (text : String) (rest : List Piece) :
    lexemesOf (.literal text :: rest) = .literal text :: lexemesOf rest := rfl

@[simp] theorem lexemesOf_mark (text : String) (rest : List Piece) :
    lexemesOf (.mark text :: rest) = .mark text :: lexemesOf rest := rfl

@[simp] theorem lexemesOf_remark (comment : DocComment) (rest : List Piece) :
    lexemesOf (.remark comment :: rest) = .remark comment :: lexemesOf rest := rfl

@[simp] theorem lexemesOf_group (delimiter : Delimiter) (inner rest : List Piece) :
    lexemesOf (.group delimiter inner :: rest)
      = .opening delimiter :: (lexemesOf inner ++ .closing delimiter :: lexemesOf rest) := by
  rw [lexemesOf_cons, Piece.lexemes, List.cons_append, List.append_assoc]
  rfl

mutual

theorem Piece.exists_spelled (piece : Piece) : ∃ tokens, piece.Spelled tokens :=
  match piece with
  | .word _ => ⟨_, rfl⟩
  | .literal _ => ⟨_, rfl⟩
  | .mark _ => ⟨_, false, rfl⟩
  | .remark _ => ⟨_, rfl⟩
  | .group _ inner =>
    let ⟨within, hInner⟩ := exists_spelled inner
    ⟨_, within, rfl, hInner⟩

theorem exists_spelled (pieces : List Piece) : ∃ tokens, Spelled pieces tokens :=
  match pieces with
  | [] => ⟨[], rfl⟩
  | piece :: rest =>
    let ⟨front, hPiece⟩ := piece.exists_spelled
    let ⟨back, hRest⟩ := exists_spelled rest
    ⟨front ++ back, front, back, rfl, hPiece, hRest⟩

end

theorem spelled_append {front back : List Piece} {tokens : List Token}
    (h : Spelled (front ++ back) tokens) :
    ∃ first second, tokens = first ++ second ∧ Spelled front first ∧ Spelled back second := by
  induction front generalizing tokens with
  | nil => exact ⟨[], tokens, rfl, rfl, h⟩
  | cons piece front ih =>
    obtain ⟨head, rest, rfl, hPiece, hRest⟩ := h
    obtain ⟨first, second, rfl, hFront, hBack⟩ := ih hRest
    exact ⟨head ++ first, second, (List.append_assoc ..).symm, ⟨head, first, rfl, hPiece, hFront⟩, hBack⟩

theorem spelled_word {name : String} {rest : List Piece} {tokens : List Token}
    (h : Spelled (.word name :: rest) tokens) : ∃ back, tokens = .word name :: back ∧ Spelled rest back := by
  obtain ⟨_, back, rfl, rfl, hRest⟩ := h
  exact ⟨back, rfl, hRest⟩

theorem spelled_literal {text : String} {rest : List Piece} {tokens : List Token}
    (h : Spelled (.literal text :: rest) tokens) :
    ∃ back, tokens = .literal text :: back ∧ Spelled rest back := by
  obtain ⟨_, back, rfl, rfl, hRest⟩ := h
  exact ⟨back, rfl, hRest⟩

theorem spelled_mark {text : String} {rest : List Piece} {tokens : List Token}
    (h : Spelled (.mark text :: rest) tokens) :
    ∃ joined back, tokens = marks text.toList joined ++ back ∧ Spelled rest back := by
  obtain ⟨_, back, rfl, ⟨joined, rfl⟩, hRest⟩ := h
  exact ⟨joined, back, rfl, hRest⟩

theorem spelled_one {text : String} (c : Char) (hText : text.toList = [c]) {rest : List Piece}
    {tokens : List Token} (h : Spelled (.mark text :: rest) tokens) :
    ∃ joined back, tokens = .mark c joined :: back ∧ Spelled rest back := by
  obtain ⟨joined, back, rfl, hRest⟩ := spelled_mark h
  rw [hText]
  exact ⟨joined, back, rfl, hRest⟩

theorem spelled_two {text : String} (c d : Char) (hText : text.toList = [c, d]) {rest : List Piece}
    {tokens : List Token} (h : Spelled (.mark text :: rest) tokens) :
    ∃ joined back, tokens = .mark c true :: .mark d joined :: back ∧ Spelled rest back := by
  obtain ⟨joined, back, rfl, hRest⟩ := spelled_mark h
  rw [hText]
  exact ⟨joined, back, rfl, hRest⟩

theorem spelled_remark {comment : DocComment} {rest : List Piece} {tokens : List Token}
    (h : Spelled (.remark comment :: rest) tokens) :
    ∃ back, tokens = comment.tokens ++ back ∧ Spelled rest back := by
  obtain ⟨_, back, rfl, rfl, hRest⟩ := h
  exact ⟨back, rfl, hRest⟩

theorem spelled_group {delimiter : Delimiter} {inner rest : List Piece} {tokens : List Token}
    (h : Spelled (.group delimiter inner :: rest) tokens) :
    ∃ within back, tokens = .group delimiter within :: back ∧ Spelled inner within ∧ Spelled rest back := by
  obtain ⟨_, back, rfl, ⟨within, rfl, hInner⟩, hRest⟩ := h
  exact ⟨within, back, rfl, hInner, hRest⟩

mutual

theorem gather_piece (piece : Piece) {ls : List Lexeme} {ss : List Sign}
    (h : Resolves (piece.lexemes ++ ls) ss) :
    ∃ tokens rest, Resolves ls rest ∧ piece.Spelled tokens
      ∧ ∀ opened read, gather opened read ss = gather opened (tokens.reverse ++ read) rest := by
  cases piece with
  | word name =>
    cases h with
    | word hRest => exact ⟨_, _, hRest, rfl, fun _ _ => rfl⟩
  | literal text =>
    cases h with
    | literal hRest => exact ⟨_, _, hRest, rfl, fun _ _ => rfl⟩
  | mark text =>
    cases h with
    | mark hRest => exact ⟨_, _, hRest, ⟨_, rfl⟩, fun opened read => gather_tokens opened read _ _⟩
  | remark comment =>
    cases h with
    | remark hRest => exact ⟨_, _, hRest, rfl, fun opened read => gather_tokens opened read _ _⟩
  | group delimiter inner =>
    rw [Piece.lexemes, List.cons_append, List.append_assoc] at h
    cases h with
    | opening hInner =>
      obtain ⟨within, rest, hResolves, hSpelled, hGather⟩ := gather_pieces inner hInner
      cases hResolves with
      | closing hRest =>
        refine ⟨_, _, hRest, ⟨within, rfl, hSpelled⟩, ?_⟩
        intro opened read
        rw [gather, hGather, gather, if_pos rfl, List.append_nil, List.reverse_reverse]
        rfl

/-- Gathered signs of a sentence are tokens that spell it. -/
theorem gather_pieces (pieces : List Piece) {ls : List Lexeme} {ss : List Sign}
    (h : Resolves (lexemesOf pieces ++ ls) ss) :
    ∃ tokens rest, Resolves ls rest ∧ Spelled pieces tokens
      ∧ ∀ opened read, gather opened read ss = gather opened (tokens.reverse ++ read) rest := by
  cases pieces with
  | nil => exact ⟨[], ss, h, rfl, fun _ _ => rfl⟩
  | cons piece pieces =>
    rw [lexemesOf, List.append_assoc] at h
    obtain ⟨front, middle, hMiddle, hPiece, hFront⟩ := gather_piece piece h
    obtain ⟨back, rest, hRest, hPieces, hBack⟩ := gather_pieces pieces hMiddle
    refine ⟨front ++ back, rest, hRest, ⟨front, back, rfl, hPiece, hPieces⟩, ?_⟩
    intro opened read
    rw [hFront, hBack, List.reverse_append, List.append_assoc]

end

/-- A text that consists of the lexemes of a sentence is lexed to tokens that spell the sentence. -/
theorem lex_of_reads {cs : List Char} {pieces : List Piece} (h : Reads cs (lexemesOf pieces)) :
    ∃ tokens, lex cs = some tokens ∧ Spelled pieces tokens := by
  obtain ⟨ss, hResolves, hLexes⟩ := lexes_of_reads h
  rw [← List.append_nil (lexemesOf pieces)] at hResolves
  obtain ⟨tokens, rest, hRest, hSpelled, hGather⟩ := gather_pieces pieces hResolves
  cases hRest
  refine ⟨tokens, ?_, hSpelled⟩
  rw [lex, hLexes _ _ _ (Nat.lt_succ_self _), hGather, gather, List.append_nil, List.reverse_reverse]
  rfl

end ProtoBind.Source
