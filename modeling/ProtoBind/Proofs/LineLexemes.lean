import ProtoBind.Emit.Line
import ProtoBind.Proofs.CommentLines
import ProtoBind.Proofs.Sentences

/-!
# Lines and their lexemes

What emitted lines consist of, however far in they stand. Lines of code are put together from fixed texts,
which are scanned, and from names, literals and types that are known to be read as such.
-/

set_option autoImplicit false

namespace ProtoBind.Source

open Text

/-! ## Texts put together -/

def Tail.goesBefore (tail : Tail) (back : String) : Bool :=
  !back.toList.isEmpty && tail.allows back.toList

namespace Writes

variable {t u : Tail} {front back : String} {ls ms : List Lexeme}

/-- A fixed text. -/
theorem ofFixed (text : String) (ms : List Lexeme) (hScan : scan text.length text.toList = some ms) :
    Writes (tailOf text.toList) text.toList ms := writes_of_scan hScan

/-- A fixed text behind another text. -/
theorem fixed (h : Writes t front.toList ls) (back : String) (ms : List Lexeme)
    (hScan : scan back.length back.toList = some ms) (hMay : t.goesBefore back = true) :
    Writes (tailOf back.toList) (front ++ back).toList (ls ++ ms) := by
  obtain ⟨hNe, hAllows⟩ := Bool.and_eq_true_iff.mp hMay
  rw [String.toList_append]
  exact h.append (writes_of_scan hScan) (.inr ⟨by simpa using hNe, hAllows⟩)

/-- A text behind one that anything may follow. -/
theorem next (h : Writes t front.toList ls) (hAny : t = .any) (hBack : Writes u back.toList ms) :
    Writes u (front ++ back).toList (ls ++ ms) := by
  rw [String.toList_append]
  exact h.append hBack (.inl hAny)

/-- What goes before anything goes before all that may follow a word. -/
theorem weaken {cs : List Char} (h : Writes .any cs ls) (t : Tail) : Writes t cs ls :=
  fun _ _ _ hRest => h rfl hRest

end Writes

end ProtoBind.Source

namespace ProtoBind.Emit

open Source Text

/-! ## Lines -/

def remark (inner : Bool) (text : String) : DocComment :=
  ⟨inner, if text = "" then [] else ' ' :: text.toList⟩

inductive LineReads : Line → List Lexeme → Prop where
  | code {depth : Nat} {text : String} {tail : Tail} {ls : List Lexeme}
      (h : Writes tail text.toList ls) : LineReads (.code depth text) ls
  | doc {depth : Nat} {text : String} (hLine : (remark false text).isLine = true) :
      LineReads (.doc depth text) [.remark (remark false text)]
  | innerDoc {text : String} (hLine : (remark true text).isLine = true) :
      LineReads (.innerDoc text) [.remark (remark true text)]
  | blank : LineReads .blank []

inductive LinesRead : List Line → List Lexeme → Prop where
  | nil : LinesRead [] []
  | cons {line : Line} {lines : List Line} {ls ms : List Lexeme} (h : LineReads line ls)
      (hRest : LinesRead lines ms) : LinesRead (line :: lines) (ls ++ ms)

theorem marked_toList (inner : Bool) (text : String) :
    (marked (if inner then "//!" else "///") text).toList
      = (remark inner text).marker ++ (remark inner text).text := by
  unfold marked remark DocComment.marker
  cases inner <;> by_cases hEmpty : text = "" <;> simp [hEmpty]

theorem writes_line {line : Line} {ls : List Lexeme} (h : LineReads line ls) :
    Writes .any (line.text ++ "\n").toList ls := by
  have hEnd : Writes .any "\n".toList [] := Writes.blank (.inr rfl)
  have hIndented : ∀ {tail : Tail} {text : String} {ls : List Lexeme} (depth : Nat),
      Writes tail text.toList ls → Writes tail (Line.indentation depth ++ text).toList ls := by
    intro tail text ls depth hText
    have hBlanks : Writes .any (Line.indentation depth).toList [] := by
      rw [indentation_toList]
      exact Writes.blanks _
    exact hBlanks.next rfl hText
  have hClose : ∀ {tail : Tail} {text : String} {ls : List Lexeme}, Writes tail text.toList ls →
      Writes .any (text ++ "\n").toList ls := by
    intro tail text ls hText
    have hAll := hText.append hEnd (.inr ⟨by simp, by cases tail <;> rfl⟩)
    rwa [List.append_nil, ← String.toList_append] at hAll
  cases h with
  | code hText => exact hClose (hIndented _ hText)
  | doc hLine =>
    have hText := Writes.remark hLine
    rw [← marked_toList] at hText
    exact hClose (hIndented _ hText)
  | innerDoc hLine =>
    have hText := Writes.remark hLine
    rw [← marked_toList] at hText
    exact hClose hText
  | blank => exact hClose Writes.empty

/-- The text of lines consists of what the lines consist of. -/
theorem writes_render {lines : List Line} {ls : List Lexeme} (h : LinesRead lines ls) :
    Writes .any (render lines).toList ls := by
  induction h with
  | nil => exact Writes.empty
  | cons h _ ih =>
    have hAll := (writes_line h).next rfl ih
    rwa [render, List.map_cons, String.join_cons]

theorem reads_render {lines : List Line} {ls : List Lexeme} (h : LinesRead lines ls) :
    Reads (render lines).toList ls := by
  have hAll := writes_render h rfl .nil
  rwa [List.append_nil, List.append_nil] at hAll

theorem LinesRead.append {front back : List Line} {ls ms : List Lexeme} (h : LinesRead front ls)
    (hBack : LinesRead back ms) : LinesRead (front ++ back) (ls ++ ms) := by
  induction h with
  | nil => exact hBack
  | cons h _ ih =>
    rw [List.cons_append, List.append_assoc]
    exact .cons h ih

theorem LinesRead.nest {lines : List Line} {ls : List Lexeme} (h : LinesRead lines ls) :
    LinesRead (nest lines) ls := by
  induction h with
  | nil => exact .nil
  | cons h _ ih =>
    refine .cons ?_ ih
    cases h with
    | code hText => exact .code hText
    | doc hLine => exact .doc hLine
    | innerDoc hLine => exact .innerDoc hLine
    | blank => exact .blank

/-! ## Sentences on lines -/

def Lined (lines : List Line) (ps : List Piece) : Prop := LinesRead lines (lexemesOf ps)

namespace Lined

variable {ps qs : List Piece} {lines more : List Line}

theorem nil : Lined [] [] := LinesRead.nil

theorem blank : Lined [.blank] [] := LinesRead.cons .blank .nil

theorem append (h : Lined lines ps) (hMore : Lined more qs) : Lined (lines ++ more) (ps ++ qs) := by
  rw [Lined, lexemesOf_append]
  exact LinesRead.append h hMore

theorem code {tail : Tail} {text : String} {ls : List Lexeme} (h : Writes tail text.toList ls)
    (hLexemes : ls = lexemesOf ps) : Lined [code text] ps := by
  subst hLexemes
  have hAll := LinesRead.cons (@LineReads.code 0 _ _ _ h) .nil
  rwa [List.append_nil] at hAll

theorem block {t u : Tail} {opening closing : String} {first last : List Lexeme}
    (hOpening : Writes t opening.toList first) (hBody : Lined lines qs)
    (hClosing : Writes u closing.toList last)
    (hLexemes : first ++ lexemesOf qs ++ last = lexemesOf ps) :
    Lined (block opening lines closing) ps := by
  have hLast := LinesRead.cons (@LineReads.code 0 _ _ _ hClosing) .nil
  have hMiddle : LinesRead (Emit.nest lines ++ [.code 0 closing]) (lexemesOf qs ++ (last ++ [])) :=
    LinesRead.append (LinesRead.nest hBody) hLast
  have hAll := LinesRead.cons (@LineReads.code 0 _ _ _ hOpening) hMiddle
  rwa [List.append_nil, ← List.append_assoc, hLexemes] at hAll

end Lined

end ProtoBind.Emit
