import ProtoBind.Proofs.ParsedUses
import ProtoBind.Proofs.SortedImports

/-!
# Imports in canonical order

The private items of use at the start of a source file are put in the strict order of their tokens, and a
file in order stays as it is. Where tokens tell these items apart, as they do in every file that the
parser of emitted texts gives, the order forgets nothing but where an item stood and how often.
-/

set_option autoImplicit false

namespace ProtoBind.Source

namespace Grammar

variable {α ι : Type} (g : Grammar α ι)

/-- Whether no two different items have the same tokens. -/
def TokensTell (items : List ι) : Prop :=
  ∀ item ∈ items, ∀ other ∈ items, g.tokenText item = g.tokenText other → item = other

/-- Two files that differ at most in the order of the private items of use at their start and in how often
each of them is there. -/
structure SameButImports (file other : FileOf α ι) : Prop where
  shebang : other.shebang = file.shebang
  attributes : other.attributes = file.attributes
  imports : ∀ text, text ∈ (g.leadingUses other.items).map g.tokenText
    ↔ text ∈ (g.leadingUses file.items).map g.tokenText
  rest : other.items.dropWhile g.isPrivateUse = file.items.dropWhile g.isPrivateUse

variable {g} {items more : List ι} {file other : FileOf α ι}

theorem TokensTell.mono (h : g.TokensTell items) (hSub : more ⊆ items) : g.TokensTell more :=
  fun item hItem other hOther => h item (hSub hItem) other (hSub hOther)

theorem isPrivateUse_of_mem {item : ι} (h : item ∈ g.leadingUses items) : g.isPrivateUse item = true :=
  List.all_eq_true.mp List.all_takeWhile item h

theorem leadingUses_append (h : ∀ item ∈ more, g.isPrivateUse item = true) (items : List ι) :
    g.leadingUses (more ++ items.dropWhile g.isPrivateUse) = more
      ∧ (more ++ items.dropWhile g.isPrivateUse).dropWhile g.isPrivateUse = items.dropWhile g.isPrivateUse := by
  refine takeWhile_append_of_all h fun item hMem => ?_
  have hHead := List.head?_dropWhile_not g.isPrivateUse items
  rw [hMem] at hHead
  exact hHead

theorem sortImports_run (file : FileOf α ι) :
    g.leadingUses (g.sortImports file).items = g.dropRepeated (g.sortUses (g.leadingUses file.items))
      ∧ (g.sortImports file).items.dropWhile g.isPrivateUse = file.items.dropWhile g.isPrivateUse :=
  leadingUses_append (fun _ hMem => isPrivateUse_of_mem (mem_of_firstOf (mem_ordered.mp hMem))) file.items

theorem exists_mem_ordered {item : ι} (h : item ∈ items) :
    ∃ kept ∈ g.dropRepeated (g.sortUses items), g.tokenText kept = g.tokenText item := by
  obtain ⟨kept, hKept⟩ := exists_firstOf (g := g) h
  have hText := tokenText_of_firstOf hKept
  exact ⟨kept, mem_ordered.mpr (by rwa [hText]), hText⟩

/-- Where tokens tell items apart, those that are put in order are the same ones. -/
theorem TokensTell.mem_ordered {item : ι} (h : g.TokensTell items) :
    item ∈ g.dropRepeated (g.sortUses items) ↔ item ∈ items := by
  refine ⟨fun hMem => mem_of_firstOf (Grammar.mem_ordered.mp hMem), fun hMem => ?_⟩
  obtain ⟨kept, hKept, hText⟩ := exists_mem_ordered (g := g) hMem
  have hSame := h kept (mem_of_firstOf (Grammar.mem_ordered.mp hKept)) item hMem hText
  rwa [hSame] at hKept

theorem ordered_of_ascending (h : g.Ascending items) : g.dropRepeated (g.sortUses items) = items :=
  (ascending_ordered items).ext h fun item => by rw [mem_ordered, h.mem_iff]

theorem sortImports_idem (file : FileOf α ι) : g.sortImports (g.sortImports file) = g.sortImports file := by
  obtain ⟨hRun, hRest⟩ := sortImports_run (g := g) file
  rw [sortImports, hRun, hRest, ordered_of_ascending (ascending_ordered _)]
  rfl

/-! ## Files that differ in their imports alone -/

theorem mem_texts_ordered (items : List ι) (text : String) :
    text ∈ (g.dropRepeated (g.sortUses items)).map g.tokenText ↔ text ∈ items.map g.tokenText := by
  rw [List.mem_map, List.mem_map]
  constructor
  · rintro ⟨item, hMem, rfl⟩
    exact ⟨item, mem_of_firstOf (mem_ordered.mp hMem), rfl⟩
  · rintro ⟨item, hMem, rfl⟩
    exact exists_mem_ordered hMem

/-- Other private items of use of the same tokens may stand at the start of a file. -/
theorem sameButImports_of_texts (hPrivate : ∀ item ∈ more, g.isPrivateUse item = true)
    (hTexts : ∀ text, text ∈ more.map g.tokenText ↔ text ∈ (g.leadingUses file.items).map g.tokenText) :
    g.SameButImports file { file with items := more ++ file.items.dropWhile g.isPrivateUse } := by
  obtain ⟨hRun, hRest⟩ := leadingUses_append hPrivate file.items
  refine ⟨rfl, rfl, fun text => ?_, hRest⟩
  rw [hRun, hTexts]

theorem texts_of_same (h : g.SameButImports file other) :
    (g.dropRepeated (g.sortUses (g.leadingUses other.items))).map g.tokenText
      = (g.dropRepeated (g.sortUses (g.leadingUses file.items))).map g.tokenText := by
  have hOrder : ∀ items : List ι, ((g.dropRepeated (g.sortUses items)).map g.tokenText).Pairwise (· < ·) :=
    fun items => List.pairwise_map.mpr (ascending_ordered items)
  refine (hOrder _).eq_of_mem_iff (hOrder _) fun text => ?_
  rw [mem_texts_ordered, mem_texts_ordered, h.imports]

/-- An item is put in order with others if one of its tokens is, and tokens tell the two apart. -/
theorem mem_ordered_of_texts {item : ι} (hTexts : ∀ text ∈ more.map g.tokenText, text ∈ items.map g.tokenText)
    (hTell : ∀ first ∈ items, ∀ later ∈ more, g.tokenText first = g.tokenText later → first = later)
    (h : item ∈ g.dropRepeated (g.sortUses more)) : item ∈ g.dropRepeated (g.sortUses items) := by
  have hMem := mem_of_firstOf (mem_ordered.mp h)
  obtain ⟨first, hFirst, hText⟩ := List.mem_map.mp (hTexts _ (List.mem_map_of_mem hMem))
  obtain ⟨kept, hKept, hSame⟩ := exists_mem_ordered (g := g) hFirst
  obtain rfl := hTell kept (mem_of_firstOf (mem_ordered.mp hKept)) item hMem (hSame.trans hText)
  exact hKept

theorem sortImports_of_same (h : g.SameButImports file other)
    (hTell : g.TokensTell (g.leadingUses file.items ++ g.leadingUses other.items)) :
    g.sortImports other = g.sortImports file := by
  have hApart : ∀ first ∈ g.leadingUses file.items, ∀ later ∈ g.leadingUses other.items,
      g.tokenText first = g.tokenText later → first = later := fun first hFirst later hLater =>
    hTell first (List.mem_append_left _ hFirst) later (List.mem_append_right _ hLater)
  have hOrdered : g.dropRepeated (g.sortUses (g.leadingUses other.items))
      = g.dropRepeated (g.sortUses (g.leadingUses file.items)) := by
    refine (ascending_ordered _).ext (ascending_ordered _) fun item => ⟨?_, ?_⟩
    · exact mem_ordered_of_texts (fun text => (h.imports text).mp) hApart
    · exact mem_ordered_of_texts (fun text => (h.imports text).mpr)
        fun later hLater first hFirst hText => (hApart first hFirst later hLater hText.symm).symm
  rw [sortImports, sortImports, hOrdered, h.rest]
  obtain ⟨shebang, attributes, items⟩ := other
  obtain rfl := h.shebang
  obtain rfl := h.attributes
  rfl

end Grammar

/-! ## Emitted texts -/

theorem tokensTell_of_proper {items : List Item} (h : ∀ use, .use use ∈ items → use.Proper)
    (hPrivate : ∀ item ∈ items, emittedGrammar.isPrivateUse item = true) : emittedGrammar.TokensTell items := by
  have hUse : ∀ item ∈ items, ∃ use : UseItem, item = .use use ∧ use.visibility = .inherited := by
    intro item hMem
    have hFound := hPrivate item hMem
    cases item with
    | use use =>
      refine ⟨use, rfl, ?_⟩
      obtain ⟨attributes, visibility, rooted, tree⟩ := use
      cases visibility with
      | inherited => rfl
      | _ => cases hFound
    | _ => cases hFound
  intro item hItem other hOther hText
  obtain ⟨use, rfl, hInherited⟩ := hUse item hItem
  obtain ⟨later, rfl, hInherited'⟩ := hUse other hOther
  rw [tokenText_injective (h use hItem) (h later hOther) hInherited hInherited' hText]

/-- Tokens tell the imports at the start of parsed files apart. -/
theorem tokensTell_of_parse {text text' : String} {file other : SourceFile}
    (h : emittedGrammar.parse text = some file) (h' : emittedGrammar.parse text' = some other) :
    emittedGrammar.TokensTell (emittedGrammar.leadingUses file.items ++ emittedGrammar.leadingUses other.items) := by
  refine tokensTell_of_proper (fun use hMem => ?_) fun item hMem => ?_
  · rcases List.mem_append.mp hMem with hUse | hUse
    · exact leadingUses_proper h use hUse
    · exact leadingUses_proper h' use hUse
  · rcases List.mem_append.mp hMem with hUse | hUse
    · exact Grammar.isPrivateUse_of_mem hUse
    · exact Grammar.isPrivateUse_of_mem hUse

/-! ## The order -/

/-- Whatever the language, the imports at the start of a file are put in the strict order of their tokens,
of each text the first item that has it and none lost; what follows the first other item stays where it
is. Putting a file in order again changes nothing. Files that differ in the order and number of these
imports alone come to the same tokens, and to the same file if tokens tell their imports apart. -/
theorem imports_canonical {α ι : Type} (g : Grammar α ι) (file : FileOf α ι) :
    (∃ uses : List ι,
      g.sortImports file = { file with items := uses ++ file.items.dropWhile g.isPrivateUse }
        ∧ (uses.Pairwise fun item later => g.tokenText item < g.tokenText later)
        ∧ (∀ item, item ∈ uses ↔ g.firstOf (g.tokenText item) (g.leadingUses file.items) = some item)
        ∧ (∀ item ∈ g.leadingUses file.items, ∃ kept ∈ uses, g.tokenText kept = g.tokenText item)
        ∧ (g.TokensTell (g.leadingUses file.items) → ∀ item, item ∈ uses ↔ item ∈ g.leadingUses file.items))
      ∧ g.sortImports (g.sortImports file) = g.sortImports file
      ∧ ∀ other : FileOf α ι, g.SameButImports file other →
        (g.sortImports other).items.map g.tokenText = (g.sortImports file).items.map g.tokenText
          ∧ (g.TokensTell (g.leadingUses file.items ++ g.leadingUses other.items) →
            g.sortImports other = g.sortImports file) := by
  refine ⟨⟨_, rfl, Grammar.ascending_ordered _, fun item => Grammar.mem_ordered,
    fun item => Grammar.exists_mem_ordered, fun hTell item => hTell.mem_ordered⟩,
    Grammar.sortImports_idem file, fun other hSame => ⟨?_, Grammar.sortImports_of_same hSame⟩⟩
  rw [Grammar.sortImports, Grammar.sortImports, List.map_append, List.map_append, Grammar.texts_of_same hSame,
    hSame.rest]

/-- A text with an import twice, and with two private ones behind a public one. -/
def mixedImports : String :=
  "use b::\x7bc, d\x7d;\n#[cfg(test)]\nuse a;\nuse b::\x7bc, d\x7d;\npub use e;\nuse b::\x7bc, d\x7d;\nuse a;\n"

theorem imports_canonical_mixed : ∃ file, emittedGrammar.parse mixedImports = some file
    ∧ (emittedGrammar.leadingUses file.items).map emittedGrammar.tokenText
      = ["use b :: \x7b c , d \x7d ;", "# [cfg (test)] use a ;", "use b :: \x7b c , d \x7d ;"]
    ∧ (emittedGrammar.leadingUses (emittedGrammar.sortImports file).items).map emittedGrammar.tokenText
      = ["# [cfg (test)] use a ;", "use b :: \x7b c , d \x7d ;"]
    ∧ emittedGrammar.TokensTell (emittedGrammar.leadingUses file.items)
    ∧ emittedGrammar.sortImports (emittedGrammar.sortImports file) = emittedGrammar.sortImports file
    ∧ emittedGrammar.sortImports { file with
        items := (emittedGrammar.leadingUses file.items).reverse
          ++ file.items.dropWhile emittedGrammar.isPrivateUse } = emittedGrammar.sortImports file := by
  have hTexts : (emittedGrammar.parse mixedImports).map (fun file =>
      ((emittedGrammar.leadingUses file.items).map emittedGrammar.tokenText,
        (emittedGrammar.leadingUses (emittedGrammar.sortImports file).items).map emittedGrammar.tokenText))
      = some (["use b :: \x7b c , d \x7d ;", "# [cfg (test)] use a ;", "use b :: \x7b c , d \x7d ;"],
        ["# [cfg (test)] use a ;", "use b :: \x7b c , d \x7d ;"]) := by
    decide +kernel
  obtain ⟨file, hFile, hBoth⟩ := Option.map_eq_some_iff.mp hTexts
  obtain ⟨hRead, hOrdered⟩ := Prod.mk.inj hBoth
  have hPrivate : ∀ item ∈ (emittedGrammar.leadingUses file.items).reverse, emittedGrammar.isPrivateUse item = true :=
    fun item hMem => Grammar.isPrivateUse_of_mem (List.mem_reverse.mp hMem)
  have hReversed := @Grammar.sameButImports_of_texts _ _ emittedGrammar _ file hPrivate fun text => by
    rw [List.map_reverse, List.mem_reverse]
  have hTell : emittedGrammar.TokensTell (emittedGrammar.leadingUses file.items) :=
    (tokensTell_of_parse hFile hFile).mono (List.subset_append_left _ _)
  obtain ⟨-, hIdem, hSame⟩ := imports_canonical emittedGrammar file
  refine ⟨file, hFile, hRead, hOrdered, hTell, hIdem, (hSame _ hReversed).2 (hTell.mono ?_)⟩
  rw [(Grammar.leadingUses_append hPrivate file.items).1]
  exact List.append_subset.mpr ⟨List.Subset.refl _, List.reverse_subset.mpr (List.Subset.refl _)⟩

end ProtoBind.Source
