import ProtoBind.Emit.Line

/-!
# Code without its depth

The texts of the lines of code, taken out of comments and indentation, and what stands in them.
-/

set_option autoImplicit false

namespace ProtoBind.Emit

def codeText? : Line → Option String
  | .code _ text => some text
  | _ => none

def codeTexts (lines : List Line) : List String := lines.filterMap codeText?

@[simp] theorem codeTexts_nil : codeTexts [] = [] := rfl

@[simp] theorem codeTexts_code (text : String) (lines : List Line) :
    codeTexts (code text :: lines) = text :: codeTexts lines := rfl

@[simp] theorem codeTexts_blank (lines : List Line) : codeTexts (.blank :: lines) = codeTexts lines := rfl

@[simp] theorem codeTexts_doc (depth : Nat) (text : String) (lines : List Line) :
    codeTexts (.doc depth text :: lines) = codeTexts lines := rfl

@[simp] theorem codeTexts_append (front back : List Line) :
    codeTexts (front ++ back) = codeTexts front ++ codeTexts back := List.filterMap_append

@[simp] theorem codeTexts_flatMap {α : Type} (items : List α) (f : α → List Line) :
    codeTexts (items.flatMap f) = items.flatMap fun item => codeTexts (f item) := List.filterMap_flatMap

@[simp] theorem codeTexts_map {α : Type} (items : List α) (f : α → String) :
    codeTexts (items.map fun item => code (f item)) = items.map f := by
  induction items with
  | nil => rfl
  | cons item rest ih => rw [List.map_cons, codeTexts_code, ih, List.map_cons]

theorem codeText?_deeper (line : Line) : codeText? line.deeper = codeText? line := by
  cases line <;> rfl

@[simp] theorem codeTexts_nest (lines : List Line) : codeTexts (nest lines) = codeTexts lines := by
  have hSame : codeText? ∘ Line.deeper = codeText? := funext codeText?_deeper
  rw [codeTexts, nest, List.filterMap_map, hSame]
  rfl

@[simp] theorem codeTexts_block (opening : String) (body : List Line) (closing : String) :
    codeTexts (block opening body closing) = opening :: (codeTexts body ++ [closing]) := by
  rw [block, List.cons_append, codeTexts_code, codeTexts_append, codeTexts_nest]
  rfl

@[simp] theorem codeTexts_docLines (comment : Option String) : codeTexts (docLines comment) = [] := by
  cases comment with
  | none => rfl
  | some comment =>
    refine List.filterMap_eq_nil_iff.mpr ?_
    intro line hLine
    obtain ⟨text, -, rfl⟩ := List.mem_map.mp hLine
    rfl

@[simp] theorem codeTexts_documentation (comment : Option String) (deprecated : Bool) :
    codeTexts (documentation comment deprecated) = [] := by
  unfold documentation
  split
  · cases comment <;> simp
  · exact codeTexts_docLines comment

theorem mem_codeTexts_of_mem {lines : List Line} {text : String} (h : code text ∈ lines) :
    text ∈ codeTexts lines := List.mem_filterMap.mpr ⟨code text, h, rfl⟩

/-! ### Properties of all texts -/

def AllTexts (P : String → Prop) (lines : List Line) : Prop := ∀ text ∈ codeTexts lines, P text

section

variable {P : String → Prop} {text : String} {lines front back : List Line}

@[simp] theorem allTexts_nil : AllTexts P [] ↔ True := iff_true_intro fun _ h => absurd h List.not_mem_nil

@[simp] theorem allTexts_code : AllTexts P (code text :: lines) ↔ P text ∧ AllTexts P lines :=
  List.forall_mem_cons

@[simp] theorem allTexts_blank : AllTexts P (.blank :: lines) ↔ AllTexts P lines := Iff.rfl

@[simp] theorem allTexts_doc (depth : Nat) : AllTexts P (.doc depth text :: lines) ↔ AllTexts P lines := Iff.rfl

@[simp] theorem allTexts_append : AllTexts P (front ++ back) ↔ AllTexts P front ∧ AllTexts P back := by
  rw [AllTexts, codeTexts_append, List.forall_mem_append]
  rfl

@[simp] theorem allTexts_block {opening closing : String} :
    AllTexts P (block opening lines closing) ↔ P opening ∧ AllTexts P lines ∧ P closing := by
  rw [AllTexts, codeTexts_block, List.forall_mem_cons, List.forall_mem_append, List.forall_mem_singleton]
  rfl

@[simp] theorem allTexts_flatMap {α : Type} {items : List α} {f : α → List Line} :
    AllTexts P (items.flatMap f) ↔ ∀ item ∈ items, AllTexts P (f item) := by
  rw [AllTexts, codeTexts_flatMap, List.forall_mem_flatMap]
  rfl

@[simp] theorem allTexts_docLines (comment : Option String) : AllTexts P (docLines comment) ↔ True := by
  rw [AllTexts, codeTexts_docLines]
  exact allTexts_nil

@[simp] theorem allTexts_documentation (comment : Option String) (deprecated : Bool) :
    AllTexts P (documentation comment deprecated) ↔ True := by
  rw [AllTexts, codeTexts_documentation]
  exact allTexts_nil

end

/-! ### Beginnings -/

def Begins (head text : String) : Prop := head.toList <+: text.toList

instance (head text : String) : Decidable (Begins head text) := inferInstanceAs (Decidable (_ <+: _))

theorem begins_append (head rest : String) : Begins head (head ++ rest) := by
  rw [Begins, String.toList_append]
  exact List.prefix_append _ _

theorem Begins.append {head text : String} (h : Begins head text) (rest : String) :
    Begins head (text ++ rest) := by
  rw [Begins, String.toList_append]
  exact h.trans (List.prefix_append _ _)

theorem Begins.trans {first second third : String} (h : Begins first second) (hThen : Begins second third) :
    Begins first third := List.IsPrefix.trans h hThen

theorem Begins.behind {head text : String} (h : Begins head text) (front : String) :
    Begins (front ++ head) (front ++ text) := by
  rw [Begins, String.toList_append, String.toList_append]
  exact (List.prefix_append_right_inj _).mpr h

/-- Two texts of which neither begins with the other begin no third one together. -/
theorem Begins.not_of_apart {head other text : String} (h : Begins head text) (hFirst : ¬ Begins head other)
    (hSecond : ¬ Begins other head) : ¬ Begins other text := by
  intro hOther
  rcases List.prefix_or_prefix_of_prefix h hOther with hFront | hBack
  · exact hFirst hFront
  · exact hSecond hBack

def Headed (heads : List String) (text : String) : Prop := ∃ head ∈ heads, Begins head text

instance (heads : List String) (text : String) : Decidable (Headed heads text) :=
  inferInstanceAs (Decidable (∃ head ∈ heads, Begins head text))

theorem headed_of_mem {heads : List String} {text : String} (h : text ∈ heads) : Headed heads text :=
  ⟨text, h, List.prefix_refl _⟩

theorem Headed.append {heads : List String} {text : String} (h : Headed heads text) (rest : String) :
    Headed heads (text ++ rest) := by
  obtain ⟨head, hHead, hBegins⟩ := h
  exact ⟨head, hHead, hBegins.append rest⟩

theorem Headed.not_begins {heads : List String} {other text : String} (h : Headed heads text)
    (hApart : ∀ head ∈ heads, ¬ Begins head other ∧ ¬ Begins other head) : ¬ Begins other text := by
  obtain ⟨head, hHead, hBegins⟩ := h
  exact hBegins.not_of_apart (hApart head hHead).1 (hApart head hHead).2

/-! ### Parts -/

def Shows (lines : List Line) (part : String) : Prop := ∃ text ∈ codeTexts lines, part.toList <:+: text.toList

theorem infix_append (front part back : String) : part.toList <:+: (front ++ part ++ back).toList := by
  rw [String.toList_append, String.toList_append]
  exact List.infix_append _ _ _

end ProtoBind.Emit
