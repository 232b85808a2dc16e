import ProtoBind.Layout.Render
import ProtoBind.Proofs.Pieces

/-!
# Layouts of documents

Which texts a document may become, wherever its lines end: `Lays` leaves open how much fits on a line, so
that what is proved of it does not depend on widths. Rendering chooses one of these layouts.
-/

set_option autoImplicit false

namespace ProtoBind.Layout

open Text

/-! ## Pages -/

/-- What is written so far, and how many blanks are to follow it. -/
structure Page where
  text : List Char
  pending : Nat

namespace Page

def write (page : Page) (content : String) : Page :=
  ⟨page.text ++ List.replicate page.pending ' ' ++ content.toList, 0⟩

def mark (page : Page) (content : String) : Page := if content = "" then page else page.write content

def pass (page : Page) (place : Break) : Page :=
  ⟨page.text ++ place.otherwise.toList, page.pending + place.blanks⟩

/-- The page behind a break where the line ends and the next one is so far in. -/
def turn (page : Page) (place : Break) (indent : Nat) : Page :=
  mark ⟨(page.mark place.before).text ++ ['\n'], indent⟩ place.behind

end Page

namespace Sheet

def page (sheet : Sheet) : Page := ⟨sheet.toText.toList, sheet.pending⟩

theorem toText_cons (content : String) (pieces : List String) (space : Int) (pending : Nat) :
    (toText ⟨content :: pieces, space, pending⟩).toList = (String.join pieces.reverse).toList ++ content.toList := by
  simp [toText, String.toList_join]

theorem toText_settle (sheet : Sheet) :
    sheet.settle.toText.toList = sheet.toText.toList ++ List.replicate sheet.pending ' ' := by
  unfold settle
  split
  · rename_i hNone
    simp [hNone]
  · rw [toText_cons, toList_pushn]
    rfl

theorem page_write (sheet : Sheet) (content : String) : (sheet.write content).page = sheet.page.write content := by
  have hSettled := toText_settle sheet
  have hPending : sheet.settle.pending = 0 := by
    unfold settle
    split
    · assumption
    · rfl
  rw [toText] at hSettled
  rw [write, page, toText_cons, hSettled, Page.write, hPending]
  rfl

theorem page_mark (sheet : Sheet) (content : String) : (sheet.mark content).page = sheet.page.mark content := by
  unfold mark Page.mark
  split
  · rfl
  · exact page_write sheet content

theorem page_pass (sheet : Sheet) (place : Break) : (sheet.pass place).page = sheet.page.pass place := by
  unfold pass Page.pass
  dsimp only
  split
  · rename_i hNone
    rw [hNone]
    simp [page, toText]
  · rw [page, toText_cons]
    rfl

theorem page_newline (sheet : Sheet) (indent : Int) (place : Break) :
    (sheet.newline indent place).page = sheet.page.turn place (indent + place.offset).toNat := by
  have hMark := congrArg Page.text (page_mark sheet place.before)
  unfold newline Page.turn
  rw [← hMark]
  unfold Page.mark
  dsimp only
  split
  · rw [page, toText_cons]
    rfl
  · rw [page_write, page, toText_cons]
    rfl

end Sheet

/-! ## Choices -/

/-- The pages that a document in a box may lead to. A break that needs more may also be left out. -/
inductive Lays : Frame → List Doc → Page → Page → Prop where
  | nil {frame : Frame} {page : Page} : Lays frame [] page page
  | text {frame : Frame} {content : String} {rest : List Doc} {page out : Page}
      (h : Lays frame rest (page.write content) out) : Lays frame (.text content :: rest) page out
  | strut {frame : Frame} {rest : List Doc} {page out : Page} (h : Lays frame rest page out) :
      Lays frame (.strut :: rest) page out
  | pass {frame : Frame} {place : Break} {rest : List Doc} {page out : Page}
      (hPlace : place.never = true ∨ frame ≠ some .consistent) (h : Lays frame rest (page.pass place) out) :
      Lays frame (.brk place :: rest) page out
  | turn {frame : Frame} {place : Break} {rest : List Doc} {page out : Page} (indent : Nat)
      (hPlace : place.never = false ∧ frame ≠ none) (h : Lays frame rest (page.turn place indent) out) :
      Lays frame (.brk place :: rest) page out
  | leave {frame : Frame} {place : Break} {rest : List Doc} {page out : Page} (hPlace : place.needsMore = true)
      (h : Lays frame rest page out) : Lays frame (.brk place :: rest) page out
  | whole {frame : Frame} {breaking : Breaking} {offset : Int} {body rest : List Doc} {page middle out : Page}
      (hBody : Lays none body page middle) (h : Lays frame rest middle out) :
      Lays frame (.box breaking offset body :: rest) page out
  | divided {frame : Frame} {breaking : Breaking} {offset : Int} {body rest : List Doc} {page middle out : Page}
      (hBody : Lays (some breaking) body page middle) (h : Lays frame rest middle out) :
      Lays frame (.box breaking offset body :: rest) page out

theorem lays_append {frame : Frame} {front back : List Doc} {page out : Page} :
    Lays frame (front ++ back) page out
      ↔ ∃ middle, Lays frame front page middle ∧ Lays frame back middle out := by
  constructor
  · intro h
    induction front generalizing page with
    | nil => exact ⟨page, .nil, h⟩
    | cons doc front ih =>
      rw [List.cons_append] at h
      cases h with
      | text h =>
        obtain ⟨middle, hFront, hBack⟩ := ih h
        exact ⟨middle, .text hFront, hBack⟩
      | strut h =>
        obtain ⟨middle, hFront, hBack⟩ := ih h
        exact ⟨middle, .strut hFront, hBack⟩
      | pass hPlace h =>
        obtain ⟨middle, hFront, hBack⟩ := ih h
        exact ⟨middle, .pass hPlace hFront, hBack⟩
      | turn indent hPlace h =>
        obtain ⟨middle, hFront, hBack⟩ := ih h
        exact ⟨middle, .turn indent hPlace hFront, hBack⟩
      | leave hPlace h =>
        obtain ⟨middle, hFront, hBack⟩ := ih h
        exact ⟨middle, .leave hPlace hFront, hBack⟩
      | whole hBody h =>
        obtain ⟨middle, hFront, hBack⟩ := ih h
        exact ⟨middle, .whole hBody hFront, hBack⟩
      | divided hBody h =>
        obtain ⟨middle, hFront, hBack⟩ := ih h
        exact ⟨middle, .divided hBody hFront, hBack⟩
  · rintro ⟨middle, hFront, hBack⟩
    induction hFront with
    | nil => exact hBack
    | text _ ih => exact .text (ih hBack)
    | strut _ ih => exact .strut (ih hBack)
    | pass hPlace _ ih => exact .pass hPlace (ih hBack)
    | turn indent hPlace _ ih => exact .turn indent hPlace (ih hBack)
    | leave hPlace _ ih => exact .leave hPlace (ih hBack)
    | whole hBody _ _ ih => exact .whole hBody (ih hBack)
    | divided hBody _ _ ih => exact .divided hBody (ih hBack)

theorem lays_cons {frame : Frame} {doc : Doc} {docs : List Doc} {page out : Page} :
    Lays frame (doc :: docs) page out ↔ ∃ middle, Lays frame [doc] page middle ∧ Lays frame docs middle out :=
  @lays_append frame [doc] docs page out

theorem lays_of_shiftLast {frame : Frame} {offset : Int} {docs : List Doc} {page out : Page}
    (h : Lays frame (shiftLast offset docs) page out) : Lays frame docs page out := by
  fun_induction shiftLast offset docs generalizing page with
  | case1 => exact h
  | case2 place =>
    cases h with
    | pass hPlace h => exact .pass hPlace h
    | turn indent hPlace h => exact .turn indent hPlace h
    | leave hPlace h => exact .leave hPlace h
  | case3 doc rest _ ih =>
    obtain ⟨middle, hDoc, hRest⟩ := lays_cons.mp h
    exact lays_cons.mpr ⟨middle, hDoc, ih hRest⟩

/-- A break that is never taken adds nothing. -/
theorem eq_of_lays_never {frame : Frame} {page out : Page} (h : Lays frame never page out) : out = page := by
  cases h with
  | pass _ h =>
    cases h
    simp [Page.pass]
  | turn _ hPlace _ => cases hPlace.1
  | leave hPlace _ => cases hPlace

theorem lays_of_dropIdle {frame : Frame} {docs : List Doc} {page out : Page}
    (h : Lays frame (dropIdle docs) page out) : Lays frame docs page out := by
  fun_induction dropIdle docs generalizing page with
  | case1 => exact h
  | case2 place hMore =>
    obtain rfl := eq_of_lays_never h
    exact .leave hMore .nil
  | case3 place hMore => exact h
  | case4 doc rest _ ih =>
    obtain ⟨middle, hDoc, hRest⟩ := lays_cons.mp h
    exact lays_cons.mpr ⟨middle, hDoc, ih hRest⟩

/-- A layout only adds to what is written. -/
theorem text_of_lays {frame : Frame} {docs : List Doc} {page out : Page} (h : Lays frame docs page out) :
    page.text <+: out.text := by
  have hWrite : ∀ (page : Page) content, page.text <+: (page.write content).text := by
    intro page content
    rw [Page.write, List.append_assoc]
    exact List.prefix_append _ _
  have hMark : ∀ (page : Page) content, page.text <+: (page.mark content).text := by
    intro page content
    unfold Page.mark
    split
    · exact List.prefix_rfl
    · exact hWrite page content
  induction h with
  | nil => exact List.prefix_rfl
  | text _ ih => exact (hWrite _ _).trans ih
  | strut _ ih => exact ih
  | pass _ _ ih => exact (List.prefix_append _ _).trans ih
  | turn indent _ _ ih => exact (((hMark _ _).trans (List.prefix_append _ _)).trans (hMark ⟨_, indent⟩ _)).trans ih
  | leave _ _ ih => exact ih
  | whole _ _ ihBody ih => exact ihBody.trans ih
  | divided _ _ ihBody ih => exact ihBody.trans ih

/-! ## Rendering -/

theorem renderAll_append (frame : Frame) (indent : Int) (front back : List Cell) (sheet : Sheet) :
    renderAll frame indent (front ++ back) sheet
      = renderAll frame indent back (renderAll frame indent front sheet) := by
  induction front generalizing sheet with
  | nil => rw [List.nil_append, renderAll]
  | cons cell front ih => rw [List.cons_append, renderAll, renderAll, ih]

theorem measureAll_append (front back : List Doc) (follow : Nat) :
    measureAll (front ++ back) follow
      = { cells := (measureAll front (measureAll back follow).reach).cells ++ (measureAll back follow).cells,
          width := (measureAll front (measureAll back follow).reach).width + (measureAll back follow).width,
          reach := (measureAll front (measureAll back follow).reach).reach } := by
  induction front with
  | nil =>
    rw [List.nil_append, measureAll]
    simp
  | cons doc front ih =>
    rw [List.cons_append, measureAll, ih, measureAll]
    cases doc with
    | text content => simp [Doc.measure, Nat.add_assoc]
    | brk place => simp [Doc.measure, Nat.add_assoc]
    | box breaking offset body => simp [Doc.measure, Nat.add_assoc]
    | strut => simp [Doc.measure, Nat.add_assoc]

def Chooses (docs : List Doc) : Prop := ∀ (frame : Frame) (indent : Int) (follow : Nat) (sheet : Sheet),
  Lays frame docs sheet.page (renderAll frame indent (measureAll docs follow).cells sheet).page

theorem Chooses.cons {doc : Doc} {docs : List Doc} (hDoc : Chooses [doc]) (h : Chooses docs) :
    Chooses (doc :: docs) := by
  intro frame indent follow sheet
  have hAll := measureAll_append [doc] docs follow
  rw [List.singleton_append] at hAll
  rw [hAll, renderAll_append]
  exact lays_cons.mpr ⟨_, hDoc _ _ _ _, h _ _ _ _⟩

mutual

theorem chooses_doc (doc : Doc) : Chooses [doc] := by
  intro frame indent follow sheet
  cases doc with
  | text content =>
    simp only [measureAll, Doc.measure, renderAll, Cell.render, Sheet.page_write]
    exact .text .nil
  | brk place =>
    simp only [measureAll, Doc.measure, renderAll, Cell.render]
    split
    · rename_i hWhole
      rw [Sheet.page_pass]
      refine .pass ?_ .nil
      rw [staysWhole.eq_def, Bool.or_eq_true] at hWhole
      refine hWhole.imp_right ?_
      rintro hNone rfl
      cases hNone
    · rename_i hDivided
      rw [Sheet.page_newline]
      refine .turn _ ?_ .nil
      rw [staysWhole.eq_def, Bool.or_eq_true, not_or] at hDivided
      refine ⟨by simpa using hDivided.1, ?_⟩
      rintro rfl
      exact hDivided.2 rfl
  | box breaking offset body =>
    simp only [measureAll, Doc.measure, renderAll, Cell.render]
    split
    · exact .divided (chooses_docs body _ _ _ _) .nil
    · exact .whole (chooses_docs body _ _ _ _) .nil
  | strut =>
    simp only [measureAll, Doc.measure, renderAll]
    exact .strut .nil

theorem chooses_docs (docs : List Doc) : Chooses docs :=
  match docs with
  | [] => by
    intro frame indent follow sheet
    simp only [measureAll, renderAll]
    exact .nil
  | doc :: docs => (chooses_doc doc).cons (chooses_docs docs)

end

end ProtoBind.Layout
