import ProtoBind.Text.Blank

/-!
# Texts in pieces

What the pieces of a text between separators, and a text without the blanks at its ends, have in common
with the text.
-/

set_option autoImplicit false

namespace ProtoBind.Text

theorem splitOn_eq_splitOn (sep : Char) (cs : List Char) : splitOn sep cs = cs.splitOn sep := by
  induction cs with
  | nil => rfl
  | cons c cs ih =>
    rw [splitOn, List.splitOn_cons_eq_if_modifyHead, ih]
    simp only [beq_iff_eq]
    split
    · rfl
    · cases h : cs.splitOn sep with
      | nil => exact absurd h (List.splitOn_ne_nil sep cs)
      | cons first rest => rfl

theorem splitOn_append_sep (sep : Char) (front back : List Char) :
    splitOn sep (front ++ sep :: back) = splitOn sep front ++ splitOn sep back := by
  simp only [splitOn_eq_splitOn]
  exact List.splitOn_append_cons_self front back

theorem sep_not_mem_splitOn {sep : Char} {piece cs : List Char} (h : piece ∈ splitOn sep cs) :
    sep ∉ piece := by
  induction cs generalizing piece with
  | nil =>
    rw [splitOn, List.mem_singleton] at h
    simp [h]
  | cons c cs ih =>
    obtain ⟨first, rest, hSplit⟩ := List.exists_cons_of_ne_nil (splitOn_ne_nil sep cs)
    rw [splitOn, hSplit] at h
    rw [hSplit] at ih
    split at h
    · rcases List.mem_cons.mp h with rfl | hRest
      · simp
      · exact ih hRest
    · rename_i hSep
      rcases List.mem_cons.mp h with rfl | hRest
      · have hFirst := ih List.mem_cons_self
        simp [hFirst, Ne.symm hSep]
      · exact ih (List.mem_cons_of_mem _ hRest)

theorem mem_of_mem_splitOn {sep c : Char} {piece cs : List Char} (h : piece ∈ splitOn sep cs)
    (hMem : c ∈ piece) : c ∈ cs := by
  induction cs generalizing piece with
  | nil =>
    rw [splitOn, List.mem_singleton] at h
    rw [h] at hMem
    cases hMem
  | cons d cs ih =>
    rw [splitOn] at h
    split at h
    · rcases List.mem_cons.mp h with rfl | hRest
      · cases hMem
      · exact List.mem_cons_of_mem _ (ih hRest hMem)
    · split at h
      · rename_i hNil
        exact absurd hNil (splitOn_ne_nil sep cs)
      · rename_i first rest hSplit
        rcases List.mem_cons.mp h with rfl | hRest
        · rcases List.mem_cons.mp hMem with rfl | hMem
          · exact List.mem_cons_self
          · exact List.mem_cons_of_mem _ (ih (hSplit ▸ List.mem_cons_self) hMem)
        · exact List.mem_cons_of_mem _ (ih (hSplit ▸ List.mem_cons_of_mem _ hRest) hMem)

theorem splitOn_of_not_mem {sep : Char} {cs : List Char} (h : sep ∉ cs) : splitOn sep cs = [cs] := by
  rw [splitOn_eq_splitOn]
  exact List.splitOn_eq_singleton h

theorem intercalate_splitOn (sep : Char) (cs : List Char) : [sep].intercalate (splitOn sep cs) = cs := by
  rw [splitOn_eq_splitOn]
  exact List.intercalate_splitOn sep

/-- The pieces of pieces that are put together. -/
theorem splitOn_intercalate (sep : Char) {pieces : List (List Char)} (h : pieces ≠ []) :
    splitOn sep ([sep].intercalate pieces) = pieces.flatMap (splitOn sep) := by
  induction pieces with
  | nil => exact absurd rfl h
  | cons first rest ih =>
    cases rest with
    | nil => simp
    | cons next rest =>
      rw [List.intercalate_cons_cons, List.append_assoc, List.singleton_append, splitOn_append_sep,
        ih (List.cons_ne_nil next rest)]
      rfl

theorem mem_of_mem_trim {cs : List Char} {c : Char} (h : c ∈ trim cs) : c ∈ cs := by
  have hEnd : c ∈ (trimStart cs).reverse :=
    (List.dropWhile_suffix isBlank).subset (List.mem_reverse.mp h)
  exact (List.dropWhile_suffix isBlank).subset (List.mem_reverse.mp hEnd)

theorem intercalate_concat (sep name : String) {outer : List String} (hOuter : outer ≠ []) :
    sep.intercalate (outer ++ [name]) = sep.intercalate outer ++ sep ++ name := by
  induction outer with
  | nil => exact absurd rfl hOuter
  | cons first rest ih =>
    cases rest with
    | nil => simp [String.intercalate_cons_cons]
    | cons next rest =>
      have hRest := ih (List.cons_ne_nil next rest)
      simp only [List.cons_append, String.intercalate_cons_cons] at hRest ⊢
      rw [hRest]
      simp only [String.append_assoc]

theorem toList_pushn (c : Char) (n : Nat) : ("".pushn c n).toList = List.replicate n c := by
  rw [String.pushn_eq_repeat_push]
  induction n with
  | zero => rfl
  | succ n ih => rw [Nat.repeat, String.toList_push, ih, List.replicate_succ']

end ProtoBind.Text
