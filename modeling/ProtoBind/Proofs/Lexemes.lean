import ProtoBind.Proofs.QuotedText

/-!
# Texts and their lexemes

`Reads` says which words, literals, marks and delimiters a text consists of, whatever blanks stand
between them. It is a relation on texts to their ends, so that what may follow a piece of text is seen
by each of its rules; `Writes` is the same for a piece, before anything that may follow it.
-/

set_option autoImplicit false

namespace ProtoBind.Source

open Text

deriving instance DecidableEq for DocComment

/-- What a text consists of, where no delimiter has found its partner yet. -/
inductive Lexeme where
  | word (name : String)
  | literal (text : String)
  /-- Marks that belong together. -/
  | mark (text : String)
  | remark (comment : DocComment)
  | opening (delimiter : Delimiter)
  | closing (delimiter : Delimiter)
  deriving DecidableEq

def endsWord : List Char → Bool
  | [] => true
  | c :: _ => !isIdentifierRest c && c != '\x22' && c != '\x27' && c != '#'

def endsNumber : List Char → Bool
  | [] => true
  | c :: _ => !isIdentifierRest c && c != '\x22' && c != '\x27' && c != '#' && c != '.'

def isRawWord (name : String) : Bool :=
  match name.toList with
  | 'r' :: '#' :: base =>
    isSchemaName (String.ofList base) && !plainWords.contains (String.ofList base)
  | _ => false

def isWord (name : String) : Bool := isSchemaName name || isRawWord name

def isNumber (text : String) : Bool := !text.toList.isEmpty && text.toList.all Char.isDigit

def plainMarks : List Char := ['!', '#', '&', '*', '+', ',', '-', '.', ':', ';', '<', '=', '>', '?', '|']

def isMarks (text : String) : Bool := !text.toList.isEmpty && text.toList.all plainMarks.contains

def Delimiter.left : Delimiter → Char
  | .parenthesis => '('
  | .brace => '\x7b'
  | .bracket => '['

def Delimiter.right : Delimiter → Char
  | .parenthesis => ')'
  | .brace => '\x7d'
  | .bracket => ']'

def DocComment.marker (comment : DocComment) : List Char :=
  if comment.inner then ['/', '/', '!'] else ['/', '/', '/']

/-- Whether a documentation comment ends with its line and is none of another kind. -/
def DocComment.isLine (comment : DocComment) : Bool :=
  !comment.text.contains '\n' && !comment.text.contains '\r'
    && (comment.inner || comment.text.head? != some '/')

inductive Reads : List Char → List Lexeme → Prop where
  | nil : Reads [] []
  | blank {c : Char} {rest : List Char} {ls : List Lexeme} (hBlank : c = ' ' ∨ c = '\n')
      (hRest : Reads rest ls) : Reads (c :: rest) ls
  | word {name : String} {rest : List Char} {ls : List Lexeme} (hName : isWord name = true)
      (hEnds : endsWord rest = true) (hRest : Reads rest ls) :
      Reads (name.toList ++ rest) (.word name :: ls)
  | number {text : String} {rest : List Char} {ls : List Lexeme} (hNumber : isNumber text = true)
      (hEnds : endsNumber rest = true) (hRest : Reads rest ls) :
      Reads (text.toList ++ rest) (.literal text :: ls)
  | quoted {value : String} {rest : List Char} {ls : List Lexeme} (hEnds : endsWord rest = true)
      (hRest : Reads rest ls) :
      Reads ((Quoted.encode value).toList ++ rest) (.literal (Quoted.encode value) :: ls)
  | lifetime {name : String} {rest : List Char} {ls : List Lexeme} (hName : isSchemaName name = true)
      (hEnds : endsWord rest = true) (hRest : Reads rest ls) :
      Reads ('\x27' :: (name.toList ++ rest)) (.mark "'" :: .word name :: ls)
  | mark {text : String} {rest : List Char} {ls : List Lexeme} (hMarks : isMarks text = true)
      (hRest : Reads rest ls) : Reads (text.toList ++ rest) (.mark text :: ls)
  | opening {delimiter : Delimiter} {rest : List Char} {ls : List Lexeme} (hRest : Reads rest ls) :
      Reads (delimiter.left :: rest) (.opening delimiter :: ls)
  | closing {delimiter : Delimiter} {rest : List Char} {ls : List Lexeme} (hRest : Reads rest ls) :
      Reads (delimiter.right :: rest) (.closing delimiter :: ls)
  | remark {comment : DocComment} {rest : List Char} {ls : List Lexeme}
      (hLine : comment.isLine = true) (hRest : Reads ('\n' :: rest) ls) :
      Reads (comment.marker ++ comment.text ++ '\n' :: rest) (.remark comment :: ls)

/-- The last thing that a piece of text holds, which decides what may follow it. -/
inductive Tail where
  | any
  | word
  | number
  /-- A comment, which only the end of its line ends. -/
  | line
  deriving DecidableEq

def Tail.allows : Tail → List Char → Bool
  | .any, _ => true
  | .word, cs => endsWord cs
  | .number, cs => endsNumber cs
  | .line, cs => cs.head? == some '\n'

/-- What a piece of text consists of, whatever follows it, if only it may follow. -/
def Writes (tail : Tail) (cs : List Char) (ls : List Lexeme) : Prop :=
  ∀ ⦃rest : List Char⦄ ⦃more : List Lexeme⦄, tail.allows rest = true → Reads rest more →
    Reads (cs ++ rest) (ls ++ more)

theorem endsWord_of_endsNumber {cs : List Char} (h : endsNumber cs = true) : endsWord cs = true := by
  cases cs with
  | nil => rfl
  | cons c cs => exact (Bool.and_eq_true_iff.mp h).1

theorem Tail.allows_append {tail : Tail} {front : List Char} (hNe : front ≠ [])
    (h : tail.allows front = true) (back : List Char) : tail.allows (front ++ back) = true := by
  cases front with
  | nil => exact absurd rfl hNe
  | cons c cs => cases tail <;> exact h

namespace Writes

theorem empty : Writes .any [] [] := fun _ _ _ hRest => hRest

theorem append {t u : Tail} {front back : List Char} {ls ms : List Lexeme} (hFront : Writes t front ls)
    (hBack : Writes u back ms) (hAllows : t = .any ∨ back ≠ [] ∧ t.allows back = true) :
    Writes u (front ++ back) (ls ++ ms) := by
  intro rest more hMay hRest
  rw [List.append_assoc, List.append_assoc]
  refine hFront ?_ (hBack hMay hRest)
  rcases hAllows with rfl | ⟨hNe, hAllows⟩
  · rfl
  · exact Tail.allows_append hNe hAllows rest

theorem blank {c : Char} (hBlank : c = ' ' ∨ c = '\n') : Writes .any [c] [] :=
  fun _ _ _ hRest => .blank hBlank hRest

theorem blanks (n : Nat) : Writes .any (List.replicate n ' ') [] := by
  induction n with
  | zero => exact empty
  | succ n ih => exact (blank (.inl rfl)).append ih (.inl rfl)

theorem word {name : String} (hName : isWord name = true) :
    Writes .word name.toList [.word name] := fun _ _ hMay hRest => .word hName hMay hRest

theorem number {text : String} (hNumber : isNumber text = true) :
    Writes .number text.toList [.literal text] := fun _ _ hMay hRest => .number hNumber hMay hRest

theorem quoted (value : String) :
    Writes .word (Quoted.encode value).toList [.literal (Quoted.encode value)] :=
  fun _ _ hMay hRest => .quoted hMay hRest

theorem mark {text : String} (hMarks : isMarks text = true) : Writes .any text.toList [.mark text] :=
  fun _ _ _ hRest => .mark hMarks hRest

theorem remark {comment : DocComment} (hLine : comment.isLine = true) :
    Writes .line (comment.marker ++ comment.text) [.remark comment] := by
  intro rest more hMay hRest
  cases rest with
  | nil => cases hMay
  | cons c rest =>
    have hNewline : c = '\n' := by simpa [Tail.allows] using hMay
    subst hNewline
    exact .remark hLine hRest

end Writes

/-- What may follow a text: behind one that ends in a letter or digit, what may follow a number. -/
def tailOf (cs : List Char) : Tail := if cs.getLast?.any isNameChar then .number else .any

/-- The marks at the start of a text: a pair that belongs together, or one alone. -/
def scanMark (c : Char) (cs : List Char) : String × List Char :=
  match cs with
  | [] => (String.ofList [c], [])
  | d :: rest =>
    if ["::", "->", "=>", "=="].contains (String.ofList [c, d]) then (String.ofList [c, d], rest)
    else (String.ofList [c], d :: rest)

structure Scanned where
  tail : Tail
  lexemes : List Lexeme
  rest : List Char

def scanPiece : List Char → Option Scanned
  | [] => none
  | c :: cs =>
    if c = ' ' then some ⟨.any, [], cs⟩
    else if c = '\x27' then
      if isSchemaName (String.ofList (cs.takeWhile isNameChar)) then
        some ⟨.word, [.mark "'", .word (String.ofList (cs.takeWhile isNameChar))],
          cs.dropWhile isNameChar⟩
      else none
    else if c.isDigit then
      some ⟨.number, [.literal (String.ofList (c :: cs.takeWhile Char.isDigit))],
        cs.dropWhile Char.isDigit⟩
    else if isNameChar c then
      some ⟨.word, [.word (String.ofList (c :: cs.takeWhile isNameChar))], cs.dropWhile isNameChar⟩
    else match opened? c, closed? c with
      | some delimiter, _ => some ⟨.any, [.opening delimiter], cs⟩
      | none, some delimiter => some ⟨.any, [.closing delimiter], cs⟩
      | none, none =>
        if plainMarks.contains c then some ⟨.any, [.mark (scanMark c cs).1], (scanMark c cs).2⟩
        else none

/-- What a text of words, whole numbers, lifetimes, marks and delimiters consists of. -/
def scan : Nat → List Char → Option (List Lexeme)
  | _, [] => some []
  | 0, _ :: _ => none
  | n + 1, c :: cs =>
    match scanPiece (c :: cs) with
    | none => none
    | some piece =>
      if piece.tail.allows piece.rest then (scan n piece.rest).map (piece.lexemes ++ ·) else none

theorem tailOf_append (front : List Char) {back : List Char} (h : back ≠ []) :
    tailOf (front ++ back) = tailOf back := by
  rw [tailOf, tailOf, List.getLast?_append, List.getLast?_eq_some_getLast h]
  rfl

theorem tailOf_of_all {cs : List Char} (hNe : cs ≠ []) (h : ∀ c ∈ cs, isNameChar c = true) :
    tailOf cs = .number := by
  rw [tailOf, List.getLast?_eq_some_getLast hNe]
  exact if_pos (h _ (List.getLast_mem hNe))

theorem isNameChar_of_isDigit {c : Char} (h : c.isDigit = true) : isNameChar c = true := by
  simp [isNameChar, Char.isAlphanum, h]

theorem isAlpha_of_isNameChar {c : Char} (hName : isNameChar c = true) (hDigit : c.isDigit ≠ true) :
    (c.isAlpha || c == '_') = true := by
  rw [Ne, Bool.not_eq_true] at hDigit
  rwa [isNameChar, Char.isAlphanum, hDigit, Bool.or_false] at hName

theorem opened?_spec {c : Char} {delimiter : Delimiter} (h : opened? c = some delimiter) :
    c = delimiter.left := by
  unfold opened? at h
  split at h <;> try cases h
  · assumption
  split at h <;> try cases h
  · assumption
  split at h <;> cases h
  assumption

theorem closed?_spec {c : Char} {delimiter : Delimiter} (h : closed? c = some delimiter) :
    c = delimiter.right := by
  unfold closed? at h
  split at h <;> try cases h
  · assumption
  split at h <;> try cases h
  · assumption
  split at h <;> cases h
  assumption

theorem scanMark_spec {c : Char} (cs : List Char) (h : plainMarks.contains c = true) :
    isMarks (scanMark c cs).1 = true ∧ (scanMark c cs).1.toList ++ (scanMark c cs).2 = c :: cs := by
  have hAlone : ∀ rest, isMarks (String.ofList [c]) = true
      ∧ (String.ofList [c]).toList ++ rest = c :: rest := by
    intro rest
    rw [isMarks, String.toList_ofList]
    refine ⟨?_, rfl⟩
    simpa using h
  cases cs with
  | nil => exact hAlone []
  | cons d rest =>
    unfold scanMark
    dsimp only
    split
    · rename_i hPair
      have hMarks : ∀ pair ∈ ["::", "->", "=>", "=="], isMarks pair = true := by decide
      refine ⟨hMarks _ (List.elem_iff.mp hPair), ?_⟩
      rw [String.toList_ofList]
      rfl
    · exact hAlone (d :: rest)

theorem isSchemaName_cons {c : Char} {cs : List Char} (hName : isNameChar c = true)
    (hDigit : c.isDigit ≠ true) (hRest : ∀ d ∈ cs, isNameChar d = true) :
    isSchemaName (String.ofList (c :: cs)) = true := by
  rw [isSchemaName, String.toList_ofList]
  exact Bool.and_eq_true_iff.mpr
    ⟨isAlpha_of_isNameChar hName hDigit, List.all_eq_true.mpr hRest⟩

/-- Whether a text is written as these lexemes and goes before nothing that they may not stand before. -/
def Heads (t : Tail) (front : List Char) (ls : List Lexeme) : Prop :=
  Writes t front ls ∧ ∀ rest, (tailOf front).allows rest = true → t.allows rest = true

theorem Heads.of_any {front : List Char} {ls : List Lexeme} (h : Writes .any front ls) : Heads .any front ls :=
  ⟨h, fun _ _ => rfl⟩

theorem heads_lifetime {name : List Char} (hName : isSchemaName (String.ofList name) = true)
    (hRest : ∀ d ∈ name, isNameChar d = true) :
    Heads .word ('\x27' :: name) [.mark "'", .word (String.ofList name)] := by
  constructor
  · intro rest more hMay hMore
    have hStep := Reads.lifetime hName hMay hMore
    rwa [String.toList_ofList] at hStep
  · have hNe : name ≠ [] := by
      rintro rfl
      cases hName
    rw [show '\x27' :: name = ['\x27'] ++ name from rfl, tailOf_append _ hNe, tailOf_of_all hNe hRest]
    exact fun rest hRest => endsWord_of_endsNumber hRest

theorem heads_number {c : Char} {cs : List Char} (h : ∀ d ∈ c :: cs, d.isDigit = true) :
    Heads .number (c :: cs) [.literal (String.ofList (c :: cs))] := by
  have hNumber : isNumber (String.ofList (c :: cs)) = true := by
    rw [isNumber, String.toList_ofList]
    exact List.all_eq_true.mpr h
  have hReads := Writes.number hNumber
  rw [String.toList_ofList] at hReads
  refine ⟨hReads, ?_⟩
  rw [tailOf_of_all (by simp) fun d hMem => isNameChar_of_isDigit (h d hMem)]
  exact fun _ => id

theorem heads_word {c : Char} {cs : List Char} (hDigit : c.isDigit ≠ true)
    (h : ∀ d ∈ c :: cs, isNameChar d = true) : Heads .word (c :: cs) [.word (String.ofList (c :: cs))] := by
  obtain ⟨hName, hRest⟩ := List.forall_mem_cons.mp h
  have hReads := Writes.word (Bool.or_eq_true_iff.mpr (.inl (isSchemaName_cons hName hDigit hRest)))
  rw [String.toList_ofList] at hReads
  refine ⟨hReads, ?_⟩
  rw [tailOf_of_all (by simp) h]
  exact fun rest hRest => endsWord_of_endsNumber hRest

/-- The first piece of a text stands at its start and goes before all that the text goes before. -/
theorem scanPiece_spec {cs : List Char} {piece : Scanned} (h : scanPiece cs = some piece) :
    ∃ front, cs = front ++ piece.rest ∧ Heads piece.tail front piece.lexemes := by
  cases cs with
  | nil => cases h
  | cons c cs =>
    have hTaken : ∀ (p : Char → Bool), ∀ d ∈ cs.takeWhile p, p d = true :=
      fun p d hMem => List.all_eq_true.mp List.all_takeWhile d hMem
    have hSplit : ∀ (p : Char → Bool), c :: cs = (c :: cs.takeWhile p) ++ cs.dropWhile p :=
      fun p => congrArg (c :: ·) List.takeWhile_append_dropWhile.symm
    -- The first character tells the kind of the piece, and so how far it reaches.
    rw [scanPiece] at h
    split at h
    · rename_i hBlank
      cases h
      subst hBlank
      exact ⟨[' '], rfl, .of_any (Writes.blank (.inl rfl))⟩
    split at h
    · rename_i hQuote
      subst hQuote
      split at h <;> cases h
      rename_i hName
      exact ⟨_, hSplit _, heads_lifetime hName (hTaken _)⟩
    split at h
    · rename_i hDigit
      cases h
      exact ⟨_, hSplit _, heads_number (List.forall_mem_cons.mpr ⟨hDigit, hTaken _⟩)⟩
    split at h
    · rename_i hDigit hName
      cases h
      exact ⟨_, hSplit _, heads_word hDigit (List.forall_mem_cons.mpr ⟨hName, hTaken _⟩)⟩
    split at h
    · rename_i delimiter hOpened
      cases h
      obtain rfl := opened?_spec hOpened
      exact ⟨[_], rfl, .of_any fun _ _ _ hRest => .opening hRest⟩
    · rename_i hClosed
      cases h
      obtain rfl := closed?_spec hClosed
      exact ⟨[_], rfl, .of_any fun _ _ _ hRest => .closing hRest⟩
    · split at h <;> cases h
      rename_i hMark
      obtain ⟨hMarks, hText⟩ := scanMark_spec cs hMark
      exact ⟨_, hText.symm, .of_any (Writes.mark hMarks)⟩

/-- What has been scanned is what the text consists of. -/
theorem writes_of_scan {n : Nat} {cs : List Char} {ls : List Lexeme} (h : scan n cs = some ls) :
    Writes (tailOf cs) cs ls := by
  induction n generalizing cs ls with
  | zero =>
    cases cs with
    | nil =>
      cases h
      exact Writes.empty
    | cons c cs => cases h
  | succ n ih =>
    cases cs with
    | nil =>
      cases h
      exact Writes.empty
    | cons c cs =>
      rw [scan] at h
      split at h
      · cases h
      rename_i piece hPiece
      split at h
      · rename_i hMay
        obtain ⟨ms, hScan, rfl⟩ := Option.map_eq_some_iff.mp h
        obtain ⟨front, hText, hFront, hTail⟩ := scanPiece_spec hPiece
        rw [hText]
        by_cases hEnd : piece.rest = []
        · rw [hEnd] at hScan ⊢
          intro rest more hRest hReads
          rw [List.append_nil] at hRest ⊢
          rw [List.append_assoc]
          exact hFront (hTail rest hRest) (ih hScan rfl hReads)
        · rw [tailOf_append front hEnd]
          exact hFront.append (ih hScan) (.inr ⟨hEnd, hMay⟩)
      · cases h

end ProtoBind.Source
