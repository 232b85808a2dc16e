import ProtoBind.Proofs.Layouts
import ProtoBind.Proofs.LineLexemes

/-!
# Printed lexemes

What the layouts of a document consist of. `Prints` is a statement about all layouts at once: each of them
adds lexemes of a certain kind to what stands on the page. Layouts of one document need not consist of the
same lexemes, since commas and braces may depend on where the lines end.
-/

set_option autoImplicit false

namespace ProtoBind.Source

open Layout Text

/-! ## Lexemes on pages -/

/-- Whether a page shows these lexemes, and what may stand behind such an end may follow them. -/
def Holds (page : Page) (tail : Tail) (ls : List Lexeme) : Prop :=
  ∃ last, last ≠ .line ∧ Writes last page.text ls ∧ (last = .any ∨ last = tail ∨ page.pending ≠ 0)

theorem allows_blank {tail : Tail} (h : tail ≠ .line) (cs : List Char) : tail.allows (' ' :: cs) = true := by
  cases tail with
  | line => exact absurd rfl h
  | _ => rfl

theorem allows_newline (tail : Tail) (cs : List Char) : tail.allows ('\n' :: cs) = true := by
  cases tail <;> rfl

theorem allows_of_endsNumber {tail : Tail} {cs : List Char} (hTail : tail ≠ .line) (h : endsNumber cs = true) :
    tail.allows cs = true := by
  cases tail with
  | any => rfl
  | word => exact endsWord_of_endsNumber h
  | number => exact h
  | line => exact absurd rfl hTail

section

variable {page : Page} {t u : Tail} {ls ms : List Lexeme}

theorem Holds.tail (h : Holds page .any ls) (t : Tail) : Holds page t ls := by
  obtain ⟨last, hLine, hText, hEnd⟩ := h
  refine ⟨last, hLine, hText, ?_⟩
  rcases hEnd with hAny | hAny | hPending
  · exact .inl hAny
  · exact .inl hAny
  · exact .inr (.inr hPending)

/-- What may follow a number may follow a word. -/
theorem Holds.number (h : Holds page .word ls) : Holds page .number ls := by
  obtain ⟨last, hLine, hText, hEnd⟩ := h
  rcases hEnd with hAny | rfl | hPending
  · exact ⟨last, hLine, hText, .inl hAny⟩
  · refine ⟨.number, by simp, ?_, .inr (.inl rfl)⟩
    exact fun _ _ hMay hRest => hText (endsWord_of_endsNumber hMay) hRest
  · exact ⟨last, hLine, hText, .inr (.inr hPending)⟩

/-- What stands on a page with the blanks that are to follow. -/
theorem Holds.settled (h : Holds page t ls) :
    ∃ last, last ≠ .line ∧ Writes last (page.text ++ List.replicate page.pending ' ') ls
      ∧ (last = .any ∨ last = t) := by
  obtain ⟨last, hLine, hText, hEnd⟩ := h
  cases hPending : page.pending with
  | zero =>
    rw [hPending] at hEnd
    refine ⟨last, hLine, by simpa using hText, ?_⟩
    simpa using hEnd
  | succ n =>
    have hAll := hText.append (Writes.blanks (n + 1)) (.inr ⟨by simp, allows_blank hLine _⟩)
    rw [List.append_nil] at hAll
    exact ⟨.any, by simp, hAll, .inl rfl⟩

theorem Holds.write {content : String} (h : Holds page t ls) (hContent : Writes u content.toList ms)
    (hLine : u ≠ .line) (hMay : t = .any ∨ t.goesBefore content = true) :
    Holds (page.write content) u (ls ++ ms) := by
  obtain ⟨last, -, hText, hEnd⟩ := h.settled
  refine ⟨u, hLine, ?_, .inr (.inl rfl)⟩
  refine hText.append hContent ?_
  rcases hEnd with hAny | rfl
  · exact .inl hAny
  · refine hMay.imp_right fun hGoes => ?_
    obtain ⟨hNe, hAllows⟩ := Bool.and_eq_true_iff.mp hGoes
    exact ⟨by simpa using hNe, hAllows⟩

theorem Holds.pass {place : Break} (h : Holds page t ls) (hOtherwise : place.otherwise = "") :
    Holds (page.pass place) (if place.blanks = 0 then t else .any) ls := by
  obtain ⟨last, hLine, hText, hEnd⟩ := h
  refine ⟨last, hLine, by simpa [Page.pass, hOtherwise] using hText, ?_⟩
  rcases hEnd with hAny | rfl | hPending
  · exact .inl hAny
  · by_cases hBlanks : place.blanks = 0
    · exact .inr (.inl (by rw [if_pos hBlanks]))
    · exact .inr (.inr (by simp [Page.pass, hBlanks]))
  · exact .inr (.inr (by simp [Page.pass, hPending]))

/-- A mark that stands at a break where the line does not end. -/
theorem Holds.pass_mark {place : Break} (h : Holds page t ls) (hOtherwise : Writes .any place.otherwise.toList ms)
    (hMay : Tail.number.goesBefore place.otherwise = true) : Holds (page.pass place) .any (ls ++ ms) := by
  obtain ⟨last, hLine, hText, -⟩ := h
  obtain ⟨hNe, hAllows⟩ := Bool.and_eq_true_iff.mp hMay
  refine ⟨.any, by simp, ?_, .inl rfl⟩
  exact hText.append hOtherwise (.inr ⟨by simpa using hNe, allows_of_endsNumber hLine hAllows⟩)

theorem Holds.mark {content : String} (h : Holds page t ls)
    (hContent : content = "" ∧ ms = [] ∨ Writes .any content.toList ms ∧ t.goesBefore content = true) :
    Holds (page.mark content) t (ls ++ ms) := by
  unfold Page.mark
  rcases hContent with ⟨hNone, rfl⟩ | ⟨hContent, hMay⟩
  · rw [if_pos hNone, List.append_nil]
    exact h
  · split
    · rename_i hNone
      rw [hNone] at hMay
      cases hMay
    · exact (h.write hContent (by simp) (.inr hMay)).tail t

theorem Holds.turn {place : Break} {ns : List Lexeme} (h : Holds page t ls) (indent : Nat)
    (hBefore : place.before = "" ∧ ms = [] ∨ Writes .any place.before.toList ms ∧ t.goesBefore place.before = true)
    (hBehind : place.behind = "" ∧ ns = [] ∨ Writes .any place.behind.toList ns ∧ place.behind ≠ "") :
    Holds (page.turn place indent) .any (ls ++ (ms ++ ns)) := by
  obtain ⟨last, hLine, hText, -⟩ := h.mark hBefore
  have hNewline := hText.append (Writes.blank (.inr rfl)) (.inr ⟨by simp, allows_newline last []⟩)
  rw [List.append_nil] at hNewline
  have hNext : Holds ⟨(page.mark place.before).text ++ ['\n'], indent⟩ .any (ls ++ ms) :=
    ⟨.any, by simp, hNewline, .inl rfl⟩
  rw [← List.append_assoc]
  refine hNext.mark (hBehind.imp_right ?_)
  rintro ⟨hContent, hNe⟩
  exact ⟨hContent, by simpa [Tail.goesBefore, Tail.allows] using hNe⟩

end

/-! ## Kinds of lexemes -/

/-- Whether all layouts of documents in a box add such lexemes to a page. -/
def Prints (frame : Frame) (docs : Docs) (t u : Tail) (kind : List Lexeme → Prop) : Prop :=
  ∀ ⦃page out : Page⦄ ⦃ls : List Lexeme⦄, Holds page t ls → Lays frame docs page out →
    ∃ ms, kind ms ∧ Holds out u (ls ++ ms)

def Followed (front back : List Lexeme → Prop) (ls : List Lexeme) : Prop :=
  ∃ ms ns, front ms ∧ back ns ∧ ls = ms ++ ns

section

variable {frame : Frame} {docs more : Docs} {t u v : Tail} {kind other : List Lexeme → Prop} {ms : List Lexeme}

namespace Prints

theorem imp (h : Prints frame docs t u kind) (hKind : ∀ ls, kind ls → other ls) : Prints frame docs t u other := by
  intro page out ls hHolds hLays
  obtain ⟨ms, hMs, hOut⟩ := h hHolds hLays
  exact ⟨ms, hKind ms hMs, hOut⟩

theorem append (h : Prints frame docs t u kind) (hMore : Prints frame more u v other) :
    Prints frame (docs ++ more) t v (Followed kind other) := by
  intro page out ls hHolds hLays
  obtain ⟨middle, hFront, hBack⟩ := lays_append.mp hLays
  obtain ⟨ms, hMs, hMiddle⟩ := h hHolds hFront
  obtain ⟨ns, hNs, hOut⟩ := hMore hMiddle hBack
  exact ⟨ms ++ ns, ⟨ms, ns, hMs, hNs, rfl⟩, by rwa [← List.append_assoc]⟩

theorem weaken (h : Prints frame docs t .any kind) (u : Tail) : Prints frame docs t u kind := by
  intro page out ls hHolds hLays
  obtain ⟨ms, hMs, hOut⟩ := h hHolds hLays
  exact ⟨ms, hMs, hOut.tail u⟩

theorem behindAny (h : Prints frame docs t u kind) : Prints frame docs .any u kind :=
  fun _ _ _ hHolds hLays => h (hHolds.tail t) hLays

/-- A document that adds nothing goes unnoticed behind another. -/
theorem silent (h : Prints frame docs t u kind) (hMore : Prints frame more u v (· = [])) :
    Prints frame (docs ++ more) t v kind := by
  refine (h.append hMore).imp ?_
  rintro _ ⟨ms, _, hMs, rfl, rfl⟩
  rwa [List.append_nil]

theorem behindSilent (hMore : Prints frame more t u (· = [])) (h : Prints frame docs u v kind) :
    Prints frame (more ++ docs) t v kind := by
  refine (hMore.append h).imp ?_
  rintro _ ⟨_, ms, rfl, hMs, rfl⟩
  exact hMs

theorem shiftLast (h : Prints frame docs t u kind) (offset : Int) :
    Prints frame (shiftLast offset docs) t u kind :=
  fun _ _ _ hHolds hLays => h hHolds (lays_of_shiftLast hLays)

theorem dedent (h : Prints frame docs t u kind) : Prints frame (dedent docs) t u kind := h.shiftLast _

theorem dropIdle (h : Prints frame docs t u kind) : Prints frame (dropIdle docs) t u kind :=
  fun _ _ _ hHolds hLays => h hHolds (lays_of_dropIdle hLays)

end Prints

/-! ## Texts -/

theorem prints_nil (frame : Frame) (t : Tail) : Prints frame [] t t (· = []) := by
  intro page out ls hHolds hLays
  cases hLays
  exact ⟨[], rfl, by rwa [List.append_nil]⟩

theorem prints_text {content : String} (frame : Frame) (hContent : Writes u content.toList ms) (hLine : u ≠ .line)
    (hMay : t = .any ∨ t.goesBefore content = true) : Prints frame [.text content] t u (· = ms) := by
  intro page out ls hHolds hLays
  cases hLays with
  | text h =>
    cases h
    exact ⟨ms, rfl, hHolds.write hContent hLine hMay⟩

theorem word_of_ne {content : String} (h : content ≠ "") : word content = [.text content] := if_neg h

theorem prints_word {content : String} (frame : Frame) (hContent : Writes u content.toList ms) (hLine : u ≠ .line)
    (hMay : t.goesBefore content = true) : Prints frame (word content) t u (· = ms) := by
  have hNe : content ≠ "" := by
    rintro rfl
    cases hMay
  rw [word_of_ne hNe]
  exact prints_text frame hContent hLine (.inr hMay)

/-- A fixed text. -/
theorem prints_fixed (frame : Frame) (t : Tail) (content : String) (ms : List Lexeme)
    (hScan : scan content.length content.toList = some ms) (hMay : t.goesBefore content = true) :
    Prints frame (word content) t (tailOf content.toList) (· = ms) := by
  refine prints_word frame (writes_of_scan hScan) ?_ hMay
  unfold tailOf
  split <;> simp

theorem prints_blank (frame : Frame) {t : Tail} (h : t ≠ .line) : Prints frame blank t .any (· = []) := by
  refine prints_text frame (Writes.blank (.inl rfl)) (by simp) (.inr ?_)
  rw [Tail.goesBefore]
  exact allows_blank h []

/-! ## Breaks -/

/-- A break that adds nothing, whether the line ends there or not. -/
theorem prints_break {place : Break} (frame : Frame) (t : Tail)
    (hPlain : place.before = "" ∧ place.behind = "" ∧ place.otherwise = "") (hMore : place.needsMore = false) :
    Prints frame [.brk place] t (if place.blanks = 0 then t else .any) (· = []) := by
  obtain ⟨hBefore, hBehind, hOtherwise⟩ := hPlain
  intro page out ls hHolds hLays
  refine ⟨[], rfl, ?_⟩
  rw [List.append_nil]
  cases hLays with
  | pass _ h =>
    cases h
    exact hHolds.pass hOtherwise
  | turn indent _ h =>
    cases h
    have hTurned := hHolds.turn indent (.inl ⟨hBefore, rfl⟩) (.inl ⟨hBehind, rfl⟩)
    rw [List.append_nil, List.append_nil] at hTurned
    exact hTurned.tail _
  | leave hPlace _ =>
    rw [hMore] at hPlace
    cases hPlace

theorem prints_space (frame : Frame) (t : Tail) : Prints frame space t .any (· = []) :=
  prints_break frame t ⟨rfl, rfl, rfl⟩ rfl

theorem prints_zero (frame : Frame) (t : Tail) : Prints frame zero t t (· = []) :=
  prints_break frame t ⟨rfl, rfl, rfl⟩ rfl

theorem prints_hard (frame : Frame) (t : Tail) : Prints frame hard t .any (· = []) :=
  prints_break frame t ⟨rfl, rfl, rfl⟩ rfl

theorem prints_never (frame : Frame) (t : Tail) : Prints frame never t t (· = []) :=
  prints_break frame t ⟨rfl, rfl, rfl⟩ rfl

/-- A break that may be left out. -/
theorem prints_idle {place : Break} (frame : Frame) (t : Tail)
    (hPlain : place.before = "" ∧ place.behind = "" ∧ place.otherwise = "") :
    Prints frame [.brk place] t t (· = []) := by
  have hBreak := @prints_break { place with needsMore := false } frame t hPlain rfl
  intro page out ls hHolds hLays
  have hAny : Holds page (if place.blanks = 0 then t else .any) ls → Holds page t ls := by
    split
    · exact id
    · exact fun h => h.tail t
  have hOut : ∀ {out : Page}, (∃ ms, ms = [] ∧ Holds out (if place.blanks = 0 then t else .any) (ls ++ ms)) →
      ∃ ms, ms = [] ∧ Holds out t (ls ++ ms) := by
    rintro out ⟨ms, rfl, hHeld⟩
    refine ⟨[], rfl, ?_⟩
    split at hHeld
    · exact hHeld
    · exact hHeld.tail t
  cases hLays with
  | pass hPlace h =>
    cases h
    exact hOut (hBreak hHolds (.pass hPlace .nil))
  | turn indent hPlace h =>
    cases h
    exact hOut (hBreak hHolds (.turn indent hPlace .nil))
  | leave _ h =>
    cases h
    exact ⟨[], rfl, by rwa [List.append_nil]⟩

/-- A break with a mark that stands there if the line does not end, in a box that is not divided. -/
theorem prints_break_whole {place : Break} (hPlain : place.blanks = 0 ∧ place.needsMore = false)
    (hOtherwise : place.otherwise = "" ∧ ms = []
      ∨ Writes .any place.otherwise.toList ms ∧ Tail.number.goesBefore place.otherwise = true) :
    Prints none [.brk place] t t (· = ms) := by
  obtain ⟨hBlanks, hMore⟩ := hPlain
  intro page out ls hHolds hLays
  refine ⟨ms, rfl, ?_⟩
  cases hLays with
  | pass _ h =>
    cases h
    rcases hOtherwise with ⟨hNone, rfl⟩ | ⟨hOtherwise, hMay⟩
    · have hPassed := hHolds.pass hNone
      rwa [if_pos hBlanks, ← List.append_nil ls] at hPassed
    · exact (hHolds.pass_mark hOtherwise hMay).tail t
  | turn _ hPlace _ => exact absurd rfl hPlace.2
  | leave hPlace _ =>
    rw [hMore] at hPlace
    cases hPlace

/-- A break with marks before and behind the line end, in a box that is divided. -/
theorem prints_break_divided {place : Break} {ns : List Lexeme} (hPlain : place.never = false ∧ place.needsMore = false)
    (hBefore : place.before = "" ∧ ms = [] ∨ Writes .any place.before.toList ms ∧ t.goesBefore place.before = true)
    (hBehind : place.behind = "" ∧ ns = [] ∨ Writes .any place.behind.toList ns ∧ place.behind ≠ "") :
    Prints (some .consistent) [.brk place] t .any (· = ms ++ ns) := by
  obtain ⟨hNever, hMore⟩ := hPlain
  intro page out ls hHolds hLays
  refine ⟨ms ++ ns, rfl, ?_⟩
  cases hLays with
  | pass hPlace _ => simp [hNever] at hPlace
  | turn indent _ h =>
    cases h
    exact hHolds.turn indent hBefore hBehind
  | leave hPlace _ =>
    rw [hMore] at hPlace
    cases hPlace

/-- A comma that is left out where the line does not end, as the last of a list. -/
def MaybeComma (ls : List Lexeme) : Prop := ls = [] ∨ ls = [.mark ","]

theorem prints_lastComma (frame : Frame) {t : Tail} (h : t ≠ .line) :
    Prints frame (comma true) t t MaybeComma := by
  have hComma : Writes .any ",".toList [.mark ","] := Writes.mark (by decide)
  have hMay : t.goesBefore "," = true := by
    cases t with
    | line => exact absurd rfl h
    | _ => rfl
  intro page out ls hHolds hLays
  cases hLays with
  | pass _ h =>
    cases h
    have hPassed := @Holds.pass _ _ _ { before := "," } hHolds rfl
    rw [if_pos rfl] at hPassed
    exact ⟨[], .inl rfl, by rwa [List.append_nil]⟩
  | turn indent _ h =>
    cases h
    have hTurned := @Holds.turn _ _ _ _ { before := "," } [] hHolds indent (.inr ⟨hComma, hMay⟩) (.inl ⟨rfl, rfl⟩)
    rw [List.append_nil] at hTurned
    exact ⟨_, .inr rfl, hTurned.tail t⟩
  | leave hPlace _ => cases hPlace

/-! ## Boxes -/

def StartsWithContent (docs : Docs) : Prop := ∃ doc rest, docs = doc :: rest ∧ ∀ place, doc ≠ .brk place

theorem StartsWithContent.append (h : StartsWithContent docs) (more : Docs) : StartsWithContent (docs ++ more) := by
  obtain ⟨doc, rest, rfl, hDoc⟩ := h
  exact ⟨doc, rest ++ more, rfl, hDoc⟩

theorem startsWithContent_word {content : String} (h : content ≠ "") : StartsWithContent (word content) :=
  ⟨.text content, [], word_of_ne h, fun _ => Doc.noConfusion⟩

theorem StartsWithContent.ne_break (h : StartsWithContent docs) : ∀ place, docs ≠ [.brk place] := by
  rintro place rfl
  obtain ⟨doc, rest, hDocs, hDoc⟩ := h
  exact hDoc place (List.cons.inj hDocs).1.symm

theorem box_of_ne_break (breaking : Breaking) (offset : Int) (h : ∀ place, docs ≠ [.brk place]) :
    box breaking offset docs = [.box breaking offset (dropIdle docs)] := by
  unfold box
  split
  · rename_i place
    exact absurd rfl (h place)
  · rfl

theorem startsWithContent_box (breaking : Breaking) (offset : Int) (h : ∀ place, docs ≠ [.brk place]) :
    StartsWithContent (box breaking offset docs) := by
  rw [box_of_ne_break breaking offset h]
  exact ⟨_, [], rfl, fun _ => Doc.noConfusion⟩

theorem prints_box {breaking : Breaking} (frame : Frame) (offset : Int) (hNone : Prints none docs t u kind)
    (hSome : Prints (some breaking) docs t u kind) (hNeBreak : ∀ place, docs ≠ [.brk place]) :
    Prints frame (box breaking offset docs) t u kind := by
  rw [box_of_ne_break breaking offset hNeBreak]
  intro page out ls hHolds hLays
  cases hLays with
  | whole hBody h =>
    cases h
    exact hNone.dropIdle hHolds hBody
  | divided hBody h =>
    cases h
    exact hSome.dropIdle hHolds hBody

end

/-! ## Documents on their own -/

/-- Whether documents begin with no break and all their layouts, in whatever box, add such lexemes. -/
structure PrintsAs (docs : Docs) (tail : Tail) (kind : List Lexeme → Prop) : Prop where
  starts : StartsWithContent docs
  prints : ∀ frame, Prints frame docs .any tail kind

section

variable {docs more : Docs} {t u : Tail} {kind other : List Lexeme → Prop}

namespace PrintsAs

theorem imp (h : PrintsAs docs t kind) (hKind : ∀ ls, kind ls → other ls) : PrintsAs docs t other :=
  ⟨h.starts, fun frame => (h.prints frame).imp hKind⟩

theorem append (h : PrintsAs docs t kind) (hMore : ∀ frame, Prints frame more t u other) :
    PrintsAs (docs ++ more) u (Followed kind other) :=
  ⟨h.starts.append more, fun frame => (h.prints frame).append (hMore frame)⟩

theorem silent (h : PrintsAs docs t kind) (hMore : ∀ frame, Prints frame more t u (· = [])) :
    PrintsAs (docs ++ more) u kind :=
  ⟨h.starts.append more, fun frame => (h.prints frame).silent (hMore frame)⟩

theorem weaken (h : PrintsAs docs .any kind) (t : Tail) : PrintsAs docs t kind :=
  ⟨h.starts, fun frame => (h.prints frame).weaken t⟩

theorem number (h : PrintsAs docs .word kind) : PrintsAs docs .number kind := by
  refine ⟨h.starts, fun frame page out ls hHolds hLays => ?_⟩
  obtain ⟨ms, hMs, hOut⟩ := h.prints frame hHolds hLays
  exact ⟨ms, hMs, hOut.number⟩

theorem boxed (h : PrintsAs docs t kind) (breaking : Breaking) (offset : Int) :
    PrintsAs (box breaking offset docs) t kind :=
  ⟨startsWithContent_box breaking offset h.starts.ne_break,
    fun frame => prints_box frame offset (h.prints _) (h.prints _) h.starts.ne_break⟩

end PrintsAs

theorem printsAs_word {content : String} {ms : List Lexeme} (hContent : Writes u content.toList ms)
    (hLine : u ≠ .line) (hNe : content ≠ "") : PrintsAs (word content) u (· = ms) :=
  ⟨startsWithContent_word hNe, fun frame =>
    prints_word frame hContent hLine (by simpa [Tail.goesBefore, Tail.allows] using hNe)⟩

theorem printsAs_fixed (content : String) (ms : List Lexeme)
    (hScan : scan content.length content.toList = some ms) (hNe : content ≠ "") :
    PrintsAs (word content) (tailOf content.toList) (· = ms) :=
  ⟨startsWithContent_word hNe, fun frame =>
    prints_fixed frame .any content ms hScan (by simpa [Tail.goesBefore, Tail.allows] using hNe)⟩

end

/-! ## Lists -/

/-- Lexemes of one kind with commas between them, and perhaps one behind them. -/
inductive Commas (kind : List Lexeme → Prop) : List Lexeme → Prop where
  | last {ls : List Lexeme} (h : kind ls) : Commas kind ls
  | ended {ls : List Lexeme} (h : kind ls) : Commas kind (ls ++ [.mark ","])
  | cons {ls ms : List Lexeme} (h : kind ls) (hRest : Commas kind ms) : Commas kind (ls ++ .mark "," :: ms)

theorem withLast_cons_cons {α : Type} (first second : α) (rest : List α) :
    withLast (first :: second :: rest) = (first, false) :: withLast (second :: rest) := rfl

section

variable {α : Type} {doc : α → Docs} {kind : List Lexeme → Prop}

theorem prints_comma (frame : Frame) : Prints frame (word "," ++ space) .number .any (· = [.mark ","]) :=
  (prints_fixed frame .number "," [.mark ","] rfl rfl).silent (prints_space frame _)

theorem prints_commas (frame : Frame) {elements : List α} (hNe : elements ≠ [])
    (h : ∀ a ∈ elements, PrintsAs (doc a) .number kind) :
    Prints frame ((withLast elements).flatMap fun (a, isLast) => doc a ++ comma isLast) .any .number (Commas kind) := by
  induction elements with
  | nil => exact absurd rfl hNe
  | cons a rest ih =>
    have hFirst := (h a List.mem_cons_self).prints frame
    cases rest with
    | nil =>
      refine ((hFirst.append (prints_lastComma frame (by simp))).silent (prints_nil frame _)).imp ?_
      rintro _ ⟨ls, _, hLs, rfl | rfl, rfl⟩
      · rw [List.append_nil]
        exact .last hLs
      · exact .ended hLs
    | cons b rest =>
      rw [withLast_cons_cons, List.flatMap_cons]
      have hRest := ih (List.cons_ne_nil _ _) fun c hC => h c (List.mem_cons_of_mem _ hC)
      refine ((hFirst.append (prints_comma frame)).append hRest).imp ?_
      rintro _ ⟨_, ms, ⟨ls, _, hLs, rfl, rfl⟩, hMs, rfl⟩
      rw [List.append_assoc]
      exact .cons hLs hMs

theorem shiftLast_ne_nil {offset : Int} {docs : Docs} (h : docs ≠ []) : shiftLast offset docs ≠ [] := by
  unfold shiftLast
  split
  · exact absurd rfl h
  · exact List.cons_ne_nil _ _
  · exact List.cons_ne_nil _ _

theorem cons_ne_break (doc : Doc) {docs : Docs} (h : docs ≠ []) : ∀ place, doc :: docs ≠ [.brk place] :=
  fun _ hNeBreak => h (List.cons.inj hNeBreak).2

theorem dedent_cons_ne_break (doc : Doc) {docs : Docs} (h : docs ≠ []) :
    ∀ place, dedent (doc :: docs) ≠ [.brk place] := by
  obtain ⟨next, rest, rfl⟩ := List.exists_cons_of_ne_nil h
  have hDocs : dedent (doc :: next :: rest) = doc :: dedent (next :: rest) := by
    cases doc <;> rfl
  rw [hDocs]
  exact cons_ne_break doc (shiftLast_ne_nil (List.cons_ne_nil _ _))

theorem commas_ne_nil {elements : List α} (hNe : elements ≠ []) :
    (withLast elements).flatMap (fun (a, isLast) => doc a ++ comma isLast) ≠ [] := by
  have hComma : ∀ isLast, comma isLast ≠ [] := by decide
  cases elements with
  | nil => exact absurd rfl hNe
  | cons a rest =>
    cases rest with
    | nil => exact List.append_ne_nil_of_left_ne_nil (List.append_ne_nil_of_right_ne_nil _ (hComma true)) _
    | cons b rest => exact List.append_ne_nil_of_left_ne_nil (List.append_ne_nil_of_right_ne_nil _ (hComma false)) _

/-- Elements behind a break, in a box of any kind. -/
theorem printsAs_commas {elements : List α} (hNe : elements ≠ []) (h : ∀ a ∈ elements, PrintsAs (doc a) .number kind)
    (breaking : Breaking) (offset : Int) :
    PrintsAs (box breaking offset
        (zero ++ dedent ((withLast elements).flatMap fun (a, isLast) => doc a ++ comma isLast)))
      .number (Commas kind) := by
  have hNeBreak := cons_ne_break (.brk {}) (@shiftLast_ne_nil (-(step : Int)) _ (@commas_ne_nil _ doc _ hNe))
  have hInner : ∀ frame, Prints frame
      (zero ++ dedent ((withLast elements).flatMap fun (a, isLast) => doc a ++ comma isLast)) .any .number
      (Commas kind) := fun frame => .behindSilent (prints_zero frame .any) (prints_commas frame hNe h).dedent
  exact ⟨startsWithContent_box breaking offset hNeBreak, fun frame =>
      prints_box frame offset (hInner _) (hInner _) hNeBreak⟩

def Separated (kind : List Lexeme → Prop) (ls : List Lexeme) : Prop :=
  Commas kind ls ∧ Commas kind (ls ++ [.mark ","])

theorem printsAs_separated {elements : List α} (hNe : elements ≠ [])
    (h : ∀ a ∈ elements, PrintsAs (doc a) .number kind) :
    PrintsAs ((withLast elements).flatMap fun (a, isLast) => doc a ++ if isLast then [] else word "," ++ space)
      .number (Separated kind) := by
  induction elements with
  | nil => exact absurd rfl hNe
  | cons a rest ih =>
    have hFirst := h a List.mem_cons_self
    cases rest with
    | nil =>
      have hDocs : (withLast [a]).flatMap (fun (a, isLast) => doc a ++ if isLast then [] else word "," ++ space)
          = doc a := by simp [withLast]
      rw [hDocs]
      exact hFirst.imp fun ls hLs => ⟨.last hLs, .ended hLs⟩
    | cons b rest =>
      rw [withLast_cons_cons, List.flatMap_cons]
      have hRest := ih (List.cons_ne_nil _ _) fun c hC => h c (List.mem_cons_of_mem _ hC)
      refine ((hFirst.append fun frame => prints_comma frame).append hRest.prints).imp ?_
      rintro _ ⟨_, ms, ⟨ls, _, hLs, rfl, rfl⟩, ⟨hLast, hEnded⟩, rfl⟩
      rw [Separated, List.append_assoc, List.append_assoc, List.append_assoc]
      exact ⟨.cons hLs hLast, .cons hLs hEnded⟩

theorem commas_of_separated {ls : List Lexeme} (h : Followed (Separated kind) MaybeComma ls) :
    Commas kind ls := by
  obtain ⟨ls, _, ⟨hLast, hEnded⟩, rfl | rfl, rfl⟩ := h
  · rwa [List.append_nil]
  · exact hEnded

theorem printsAs_commaList {elements : List Docs} (hNe : elements ≠ [])
    (h : ∀ docs ∈ elements, PrintsAs docs .number kind) : PrintsAs (commaList elements) .number (Commas kind) :=
  @printsAs_commas _ id _ _ hNe h .consistent step

end

/-! ## Forms -/

def Says (form : List Piece → Prop) (ls : List Lexeme) : Prop := ∃ ps, form ps ∧ ls = lexemesOf ps

theorem Says.imp {form other : List Piece → Prop} {ls : List Lexeme} (h : Says form ls)
    (hForm : ∀ ps, form ps → other ps) : Says other ls := by
  obtain ⟨ps, hPs, rfl⟩ := h
  exact ⟨ps, hForm ps hPs, rfl⟩

/-- Forms with commas between them are what a form of lists says that is closed under the three ways to go on. -/
theorem says_of_commas {form more : List Piece → Prop} {ls : List Lexeme} (h : Commas (Says form) ls)
    (hLast : ∀ {ps}, form ps → more ps) (hEnded : ∀ {ps}, form ps → more (ps ++ [.mark ","]))
    (hCons : ∀ {ps qs}, form ps → more qs → more (ps ++ .mark "," :: qs)) : Says more ls := by
  induction h with
  | last h => exact h.imp fun _ => hLast
  | ended h =>
    obtain ⟨ps, hForm, rfl⟩ := h
    exact ⟨_, hEnded hForm, by simp [lexemesOf_append]⟩
  | cons h _ ih =>
    obtain ⟨ps, hForm, rfl⟩ := h
    obtain ⟨qs, hMore, rfl⟩ := ih
    exact ⟨_, hCons hForm hMore, by simp [lexemesOf_append]⟩

end ProtoBind.Source
