import Mathlib.Data.List.Sort
import ProtoBind.Source.Grammar

/-!
# Sorted imports

Which items of use are left when they are put in the order of their tokens, whatever the grammar: of each
text the first item that has it.
-/

set_option autoImplicit false

namespace ProtoBind.Source.Grammar

variable {α ι : Type} (g : Grammar α ι)

/-- Whether items stand in the order of their tokens, no two of the same ones. -/
def Ascending (items : List ι) : Prop := items.Pairwise fun item later => g.tokenText item < g.tokenText later

/-- The first item of such tokens. -/
def firstOf (text : String) (items : List ι) : Option ι := items.find? fun item => g.tokenText item == text

variable {g} {item : ι} {items : List ι} {text : String}

theorem firstOf_cons_of_eq (h : g.tokenText item = text) : g.firstOf text (item :: items) = some item :=
  List.find?_cons_of_pos (beq_iff_eq.mpr h)

theorem firstOf_cons_of_ne (h : g.tokenText item ≠ text) : g.firstOf text (item :: items) = g.firstOf text items :=
  List.find?_cons_of_neg (mt beq_iff_eq.mp h)

theorem tokenText_of_firstOf (h : g.firstOf text items = some item) : g.tokenText item = text := by
  have hFound := List.find?_some h
  exact beq_iff_eq.mp hFound

theorem mem_of_firstOf (h : g.firstOf text items = some item) : item ∈ items := List.mem_of_find?_eq_some h

theorem exists_firstOf (h : item ∈ items) : ∃ first, g.firstOf (g.tokenText item) items = some first :=
  Option.isSome_iff_exists.mp (List.find?_isSome.mpr ⟨item, h, beq_self_eq_true _⟩)

/-! ## The order -/

theorem insertUse_eq_orderedInsert (item : ι) (items : List ι) :
    g.insertUse item items = items.orderedInsert (fun item later => g.tokenText item ≤ g.tokenText later) item := by
  induction items with
  | nil => rfl
  | cons other rest ih => rw [insertUse, List.orderedInsert_cons, ih]

theorem sortUses_eq_insertionSort (items : List ι) :
    g.sortUses items = items.insertionSort fun item later => g.tokenText item ≤ g.tokenText later := by
  induction items with
  | nil => rfl
  | cons item rest ih => rw [sortUses, List.insertionSort_cons, ih, insertUse_eq_orderedInsert]

theorem pairwise_sortUses (items : List ι) :
    (g.sortUses items).Pairwise fun item later => g.tokenText item ≤ g.tokenText later := by
  have hTotal : Std.Total fun item later : ι => g.tokenText item ≤ g.tokenText later :=
    ⟨fun _ _ => String.le_total _ _⟩
  have hTrans : IsTrans ι fun item later => g.tokenText item ≤ g.tokenText later := ⟨fun _ _ _ => String.le_trans⟩
  rw [sortUses_eq_insertionSort]
  exact List.pairwise_insertionSort _ items

theorem mem_dropRepeated (h : item ∈ g.dropRepeated items) : item ∈ items := by
  induction items with
  | nil => exact h
  | cons first rest ih =>
    rw [dropRepeated] at h
    split at h
    · rw [List.mem_singleton.mp h]
      exact List.mem_cons_self
    · rename_i other more hMore
      rw [hMore] at ih
      split at h
      · rcases List.mem_cons.mp h with rfl | hRest
        · exact List.mem_cons_self
        · exact List.mem_cons_of_mem _ (ih (List.mem_cons_of_mem _ hRest))
      · rcases List.mem_cons.mp h with rfl | hRest
        · exact List.mem_cons_self
        · exact List.mem_cons_of_mem _ (ih hRest)

theorem ascending_dropRepeated (h : items.Pairwise fun item later => g.tokenText item ≤ g.tokenText later) :
    g.Ascending (g.dropRepeated items) := by
  induction items with
  | nil => exact .nil
  | cons item rest ih =>
    obtain ⟨hItem, hRest⟩ := List.pairwise_cons.mp h
    have hKept := ih hRest
    rw [dropRepeated]
    split
    · exact List.pairwise_singleton ..
    · rename_i other more hMore
      rw [hMore] at hKept
      obtain ⟨hOther, hTail⟩ := List.pairwise_cons.mp hKept
      have hMem : other ∈ rest := mem_dropRepeated (hMore ▸ List.mem_cons_self)
      split
      · rename_i hSame
        exact List.pairwise_cons.mpr ⟨fun later hLater => hSame ▸ hOther later hLater, hTail⟩
      · rename_i hNe
        have hLess : g.tokenText item < g.tokenText other := by
          rw [← String.not_le]
          exact fun hLe => hNe (String.le_antisymm (hItem other hMem) hLe)
        refine List.pairwise_cons.mpr ⟨List.forall_mem_cons.mpr ⟨hLess, fun later hLater => ?_⟩, hKept⟩
        exact String.lt_trans hLess (hOther later hLater)

/-! ## Of each text the first item -/

theorem firstOf_insertUse (text : String) (item : ι) (items : List ι) :
    g.firstOf text (g.insertUse item items) = g.firstOf text (item :: items) := by
  induction items with
  | nil => rfl
  | cons other rest ih =>
    rw [insertUse]
    split
    · rfl
    -- An item is put behind another one only if their tokens differ.
    · rename_i hGreater
      have hNe : g.tokenText other ≠ g.tokenText item := fun hSame => hGreater (hSame ▸ String.le_refl _)
      by_cases hOther : g.tokenText other = text
      · rw [firstOf_cons_of_eq hOther, firstOf_cons_of_ne fun hItem => hNe (hOther.trans hItem.symm),
          firstOf_cons_of_eq hOther]
      · rw [firstOf_cons_of_ne hOther, ih]
        by_cases hItem : g.tokenText item = text
        · rw [firstOf_cons_of_eq hItem, firstOf_cons_of_eq hItem]
        · rw [firstOf_cons_of_ne hItem, firstOf_cons_of_ne hItem, firstOf_cons_of_ne hOther]

theorem firstOf_sortUses (text : String) (items : List ι) :
    g.firstOf text (g.sortUses items) = g.firstOf text items := by
  induction items with
  | nil => rfl
  | cons item rest ih =>
    rw [sortUses, firstOf_insertUse]
    by_cases hItem : g.tokenText item = text
    · rw [firstOf_cons_of_eq hItem, firstOf_cons_of_eq hItem]
    · rw [firstOf_cons_of_ne hItem, firstOf_cons_of_ne hItem, ih]

theorem firstOf_dropRepeated (text : String) (items : List ι) :
    g.firstOf text (g.dropRepeated items) = g.firstOf text items := by
  induction items with
  | nil => rfl
  | cons item rest ih =>
    rw [dropRepeated]
    by_cases hItem : g.tokenText item = text
    · rw [firstOf_cons_of_eq hItem]
      split
      · exact firstOf_cons_of_eq hItem
      · split <;> exact firstOf_cons_of_eq hItem
    · rw [firstOf_cons_of_ne hItem, ← ih]
      split
      · rename_i hNone
        rw [firstOf_cons_of_ne hItem, hNone]
      · rename_i other more hMore
        rw [hMore]
        split
        · rename_i hSame
          rw [firstOf_cons_of_ne hItem, firstOf_cons_of_ne fun hOther => hItem (hSame.trans hOther)]
        · exact firstOf_cons_of_ne hItem

theorem Ascending.mem_iff (h : g.Ascending items) : item ∈ items ↔ g.firstOf (g.tokenText item) items = some item := by
  refine ⟨fun hMem => ?_, mem_of_firstOf⟩
  induction items with
  | nil => cases hMem
  | cons first rest ih =>
    obtain ⟨hFirst, hRest⟩ := List.pairwise_cons.mp h
    rcases List.mem_cons.mp hMem with rfl | hMem
    · exact firstOf_cons_of_eq rfl
    · have hNe : g.tokenText first ≠ g.tokenText item := fun hSame =>
        String.lt_irrefl _ (hSame ▸ hFirst item hMem)
      rw [firstOf_cons_of_ne hNe, ih hRest hMem]

/-- Items in the order of their tokens are known from which ones they are. -/
theorem Ascending.ext {later : List ι} (h : g.Ascending items) (h' : g.Ascending later)
    (hMem : ∀ item, item ∈ items ↔ item ∈ later) : items = later := by
  have hIrrefl : Std.Irrefl fun item later : ι => g.tokenText item < g.tokenText later :=
    ⟨fun _ => String.lt_irrefl _⟩
  have hAntisymm : Std.Antisymm fun item later : ι => g.tokenText item < g.tokenText later :=
    ⟨fun _ _ hLess hMore => absurd hMore (String.lt_asymm hLess)⟩
  exact List.Pairwise.eq_of_mem_iff h h' hMem

theorem ascending_ordered (items : List ι) : g.Ascending (g.dropRepeated (g.sortUses items)) :=
  ascending_dropRepeated (pairwise_sortUses items)

theorem mem_ordered : item ∈ g.dropRepeated (g.sortUses items) ↔ g.firstOf (g.tokenText item) items = some item := by
  rw [(ascending_ordered items).mem_iff, firstOf_dropRepeated, firstOf_sortUses]

/-- Putting imports in order adds no item. -/
theorem mem_sortImports {file : FileOf α ι} (h : item ∈ (g.sortImports file).items) : item ∈ file.items := by
  rw [← List.takeWhile_append_dropWhile (p := g.isPrivateUse) (l := file.items), List.mem_append]
  rcases List.mem_append.mp h with hUse | hRest
  · exact .inl (mem_of_firstOf (mem_ordered.mp hUse))
  · exact .inr hRest

end ProtoBind.Source.Grammar
