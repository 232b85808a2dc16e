import ProtoBind.Proofs.CodeTexts
import ProtoBind.Proofs.DeclaredNames

/-!
# Sections of emitted lines

What stands behind a line of code and deeper than it, up to the first line that does not, is the section that
the line opens. The sections of one depth that begin with the same words are read off in their order.
-/

set_option autoImplicit false

namespace ProtoBind.Emit

def Line.isBelow (depth : Nat) : Line → Bool
  | .code d _ | .doc d _ => depth < d
  | .innerDoc _ | .blank => false

/-- The lines of code of one depth that begin with some words, each with the deeper lines behind it. -/
def sections (depth : Nat) (head : String) : List Line → List (String × List Line)
  | [] => []
  | line :: rest =>
    match headedText? depth head.toList line with
    | some text => (text, rest.takeWhile (Line.isBelow depth)) :: sections depth head rest
    | none => sections depth head rest

/-- The texts of the lines of code that begin with one of some heads. -/
def textsHeaded (heads : List String) (lines : List Line) : List String :=
  (codeTexts lines).filter fun text => Headed heads text

/-! ### Lines at the margin -/

def Flush (lines : List Line) : Prop := ∀ line ∈ lines.head?, line.isBelow 0 = false

section

variable {text opening closing : String} {lines front back body : List Line} {depth : Nat} {head : String}

@[simp] theorem flush_nil : Flush [] := nofun

@[simp] theorem flush_code : Flush (code text :: lines) := by
  rintro line hLine
  cases hLine
  rfl

@[simp] theorem flush_doc : Flush (.doc 0 text :: lines) := by
  rintro line hLine
  cases hLine
  rfl

@[simp] theorem flush_blank : Flush (.blank :: lines) := by
  rintro line hLine
  cases hLine
  rfl

@[simp] theorem flush_block : Flush (block opening body closing) := flush_code

theorem Flush.append (hFront : Flush front) (hBack : Flush back) : Flush (front ++ back) := by
  cases front with
  | nil => exact hBack
  | cons line rest => exact hFront

theorem flush_flatMap {α : Type} {items : List α} {f : α → List Line} (h : ∀ item ∈ items, Flush (f item)) :
    Flush (items.flatMap f) := by
  induction items with
  | nil => exact flush_nil
  | cons item rest ih =>
    rw [List.flatMap_cons]
    exact (h item List.mem_cons_self).append (ih fun other hOther => h other (List.mem_cons_of_mem _ hOther))

theorem flush_docLines (comment : Option String) : Flush (docLines comment) := by
  cases comment with
  | none => exact flush_nil
  | some comment =>
    rw [docLines]
    cases Text.commentLines comment with
    | nil => exact flush_nil
    | cons text rest => exact flush_doc

theorem flush_documentation (comment : Option String) (deprecated : Bool) :
    Flush (documentation comment deprecated) := by
  unfold documentation
  split
  · refine ((flush_docLines comment).append ?_).append flush_doc
    split
    · exact flush_doc
    · exact flush_nil
  · exact flush_docLines comment

/-! ### Reading sections -/

theorem sections_cons (line : Line) : sections depth head (line :: lines)
    = ((headedText? depth head.toList line).map fun text => (text, lines.takeWhile (Line.isBelow depth))).toList
      ++ sections depth head lines := by
  rw [sections]
  cases headedText? depth head.toList line <;> rfl

theorem takeWhile_isBelow (h : Flush lines) : lines.takeWhile (Line.isBelow depth) = [] := by
  cases lines with
  | nil => rfl
  | cons line rest =>
    have hMargin := h line rfl
    refine List.takeWhile_cons_of_neg ?_
    cases line with
    | code d text | doc d text =>
      simp only [Line.isBelow, decide_eq_false_iff_not, decide_eq_true_eq] at hMargin ⊢
      omega
    | innerDoc text | blank => exact Bool.false_ne_true

/-- Lines that begin at the margin end all sections before them. -/
theorem sections_append (hBack : Flush back) :
    sections depth head (front ++ back) = sections depth head front ++ sections depth head back := by
  induction front with
  | nil => rfl
  | cons line rest ih =>
    have hBody : (rest ++ back).takeWhile (Line.isBelow depth) = rest.takeWhile (Line.isBelow depth) := by
      rw [List.takeWhile_append, takeWhile_isBelow hBack, List.append_nil]
      split
      · rename_i hAll
        exact ((List.takeWhile_prefix _).eq_of_length hAll).symm
      · rfl
    rw [List.cons_append, sections_cons, sections_cons, ih, hBody, List.append_assoc]

theorem sections_flatMap {α : Type} {items : List α} {f : α → List Line} (h : ∀ item ∈ items, Flush (f item)) :
    sections depth head (items.flatMap f) = items.flatMap fun item => sections depth head (f item) := by
  induction items with
  | nil => rfl
  | cons item rest ih =>
    have hRest : ∀ other ∈ rest, Flush (f other) := fun other hOther => h other (List.mem_cons_of_mem _ hOther)
    rw [List.flatMap_cons, List.flatMap_cons, sections_append (flush_flatMap hRest), ih hRest]

theorem sections_eq_nil (h : ∀ line ∈ lines, headedText? depth head.toList line = none) :
    sections depth head lines = [] := by
  induction lines with
  | nil => rfl
  | cons line rest ih =>
    rw [sections_cons, h line List.mem_cons_self]
    exact ih fun other hOther => h other (List.mem_cons_of_mem _ hOther)

/-- Lines that declare nothing with some words have no sections with them at the margin. -/
theorem sections_eq_nil_of_names (h : declaredNames head.toList lines = []) : sections 0 head lines = [] :=
  sections_eq_nil (List.filterMap_eq_nil_iff.mp (headedTexts_eq_nil h))

theorem sections_other (h : Differs head.toList text) :
    sections depth head (code text :: lines) = sections depth head lines := by
  rw [sections_cons, headedText?_other h]
  rfl

theorem sections_doc {d : Nat} : sections depth head (.doc d text :: lines) = sections depth head lines := rfl

theorem sections_docLines (comment : Option String) : sections depth head (docLines comment) = [] := by
  refine sections_eq_nil fun line hLine => ?_
  cases comment with
  | none => cases hLine
  | some comment =>
    obtain ⟨text, -, rfl⟩ := List.mem_map.mp hLine
    rfl

theorem sections_documentation (comment : Option String) (deprecated : Bool) :
    sections depth head (documentation comment deprecated) = [] := by
  unfold documentation
  split
  · rw [sections_append flush_doc, sections_append (by split <;> simp), sections_docLines]
    split <;> rfl
  · exact sections_docLines comment

/-! ### Sections of blocks -/

def Solid (lines : List Line) : Prop := ∀ line ∈ lines, line.deeper.isBelow 0 = true

@[simp] theorem solid_nil : Solid [] := nofun

@[simp] theorem solid_code : Solid (code text :: lines) ↔ Solid lines := by
  rw [Solid, List.forall_mem_cons]
  exact and_iff_right rfl

@[simp] theorem solid_append : Solid (front ++ back) ↔ Solid front ∧ Solid back := List.forall_mem_append

theorem isBelow_zero_deeper (line : Line) : line.deeper.isBelow 0 = line.deeper.deeper.isBelow 0 := by
  cases line <;> simp [Line.isBelow, Line.deeper]

@[simp] theorem solid_nest : Solid (nest lines) ↔ Solid lines := by
  rw [Solid, nest, List.forall_mem_map]
  exact forall₂_congr fun line _ => by rw [isBelow_zero_deeper line]

@[simp] theorem solid_block : Solid (block opening body closing) ↔ Solid body := by
  rw [block, List.cons_append, solid_code, solid_append, solid_nest]
  exact and_iff_left (solid_code.mpr solid_nil)

@[simp] theorem solid_flatMap {α : Type} {items : List α} {f : α → List Line} :
    Solid (items.flatMap f) ↔ ∀ item ∈ items, Solid (f item) := List.forall_mem_flatMap

@[simp] theorem solid_docLines (comment : Option String) : Solid (docLines comment) := by
  intro line hLine
  cases comment with
  | none => cases hLine
  | some comment =>
    obtain ⟨text, -, rfl⟩ := List.mem_map.mp hLine
    rfl

theorem isBelow_deeper (line : Line) : line.deeper.isBelow (depth + 1) = line.isBelow depth := by
  cases line <;> simp [Line.isBelow, Line.deeper]

theorem headedText?_zero_deeper (line : Line) : headedText? 0 head.toList line.deeper = none := by
  cases line with
  | code d text => simp [headedText?, Line.deeper]
  | doc d text => rfl
  | innerDoc text => rfl
  | blank => rfl

theorem sections_nest_zero : sections 0 head (nest lines) = [] := by
  refine sections_eq_nil fun line hLine => ?_
  obtain ⟨inner, -, rfl⟩ := List.mem_map.mp hLine
  exact headedText?_zero_deeper inner

theorem sections_nest :
    sections (depth + 1) head (nest lines) = (sections depth head lines).map (Prod.map id nest) := by
  induction lines with
  | nil => rfl
  | cons line rest ih =>
    have hBody : (nest rest).takeWhile (Line.isBelow (depth + 1)) = nest (rest.takeWhile (Line.isBelow depth)) := by
      have hSame : Line.isBelow (depth + 1) ∘ Line.deeper = Line.isBelow depth := funext isBelow_deeper
      rw [nest, List.takeWhile_map, hSame]
      rfl
    have hCons : nest (line :: rest) = line.deeper :: nest rest := rfl
    rw [hCons, sections_cons, sections_cons, headedText?_deeper, ih, hBody, List.map_append]
    cases headedText? depth head.toList line <;> rfl

/-- A block with a fitting opening is one section. -/
theorem sections_block (hOpening : Begins head opening) (hClosing : Differs head.toList closing) (hBody : Solid body) :
    sections 0 head (block opening body closing) = [(opening, nest body)] := by
  have hInside : (nest body ++ [code closing]).takeWhile (Line.isBelow 0) = nest body := by
    have hAll : ∀ line ∈ nest body, line.isBelow 0 = true := by
      intro line hLine
      obtain ⟨inner, hInner, rfl⟩ := List.mem_map.mp hLine
      exact hBody inner hInner
    rw [List.takeWhile_append_of_pos hAll, takeWhile_isBelow flush_code, List.append_nil]
  rw [block, List.cons_append, sections_cons, headedText?_code hOpening, hInside, sections_append flush_code,
    sections_nest_zero, sections_other hClosing]
  rfl

theorem sections_block_other (hOpening : Differs head.toList opening) (hClosing : Differs head.toList closing) :
    sections 0 head (block opening body closing) = [] := by
  rw [block, List.cons_append, sections_other hOpening, sections_append flush_code, sections_nest_zero,
    sections_other hClosing]
  rfl

end

/-! ### Texts with a head -/

section

variable {heads : List String} {text opening closing : String} {lines front back body : List Line}

@[simp] theorem textsHeaded_nil : textsHeaded heads [] = [] := rfl

@[simp] theorem textsHeaded_doc {depth : Nat} :
    textsHeaded heads (.doc depth text :: lines) = textsHeaded heads lines := rfl

@[simp] theorem textsHeaded_documentation (comment : Option String) (deprecated : Bool) :
    textsHeaded heads (documentation comment deprecated) = [] := by
  rw [textsHeaded, codeTexts_documentation]
  rfl

@[simp] theorem textsHeaded_append :
    textsHeaded heads (front ++ back) = textsHeaded heads front ++ textsHeaded heads back := by
  rw [textsHeaded, codeTexts_append, List.filter_append]
  rfl

@[simp] theorem textsHeaded_nest : textsHeaded heads (nest lines) = textsHeaded heads lines := by
  rw [textsHeaded, codeTexts_nest]
  rfl

theorem textsHeaded_flatMap {α : Type} {items : List α} {f : α → List Line} :
    textsHeaded heads (items.flatMap f) = items.flatMap fun item => textsHeaded heads (f item) := by
  rw [textsHeaded, codeTexts_flatMap, List.filter_flatMap]
  rfl

theorem textsHeaded_code (h : Headed heads text) :
    textsHeaded heads (code text :: lines) = text :: textsHeaded heads lines := by
  rw [textsHeaded, codeTexts_code, List.filter_cons_of_pos (by simpa using h)]
  rfl

/-- Whether no text begins both with one of some heads and with one of others. -/
def Apart (heads others : List String) : Prop :=
  ∀ head ∈ heads, ∀ other ∈ others, ¬ Begins other head ∧ ¬ Begins head other

instance (heads others : List String) : Decidable (Apart heads others) :=
  inferInstanceAs (Decidable (∀ head ∈ heads, ∀ other ∈ others, _ ∧ _))

theorem Apart.symm {others : List String} (h : Apart heads others) : Apart others heads :=
  fun other hOther head hHead => (h head hHead other hOther).symm

theorem filter_headed_of_apart {others texts : List String} (hApart : Apart heads others)
    (h : ∀ text ∈ texts, Headed others text) : texts.filter (fun text => Headed heads text) = [] := by
  rw [List.filter_eq_nil_iff]
  intro text hText hHeaded
  rw [decide_eq_true_eq] at hHeaded
  obtain ⟨head, hHead, hBegins⟩ := hHeaded
  exact (h text hText).not_begins (hApart head hHead) hBegins

theorem textsHeaded_of_apart {others : List String} (hApart : Apart heads others) (h : AllTexts (Headed others) lines) :
    textsHeaded heads lines = [] := filter_headed_of_apart hApart h

theorem textsHeaded_other {others : List String} (hApart : Apart heads others) (h : Headed others text) :
    textsHeaded heads (code text :: lines) = textsHeaded heads lines := by
  have hText : textsHeaded heads [code text] = [] :=
    textsHeaded_of_apart hApart (allTexts_code.mpr ⟨h, allTexts_nil.mpr trivial⟩)
  rw [← List.singleton_append, textsHeaded_append, hText, List.nil_append]

theorem textsHeaded_block {others : List String} (hApart : Apart heads others) (hClosing : Headed others closing) :
    textsHeaded heads (block opening body closing) = textsHeaded heads [code opening] ++ textsHeaded heads body := by
  rw [block, ← List.singleton_append, textsHeaded_append, textsHeaded_append, textsHeaded_nest,
    textsHeaded_other hApart hClosing, textsHeaded_nil, List.append_nil]

theorem textsHeaded_block_other {others : List String} (hApart : Apart heads others)
    (hOpening : Headed others opening) (hClosing : Headed others closing) :
    textsHeaded heads (block opening body closing) = textsHeaded heads body := by
  rw [textsHeaded_block hApart hClosing, textsHeaded_other hApart hOpening, textsHeaded_nil, List.nil_append]

theorem filter_headed_of_headed {texts : List String} (h : ∀ text ∈ texts, Headed heads text) :
    texts.filter (fun text => Headed heads text) = texts :=
  List.filter_eq_self.mpr fun text hText => decide_eq_true (h text hText)

end

end ProtoBind.Emit
