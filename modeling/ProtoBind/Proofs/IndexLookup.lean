import Mathlib.Data.List.Nodup
import ProtoBind.Proofs.Renumbering

/-!
# Looking names up

An index can be built if no two messages or enums have one name, and then finds each of them by its name.
Which files come first makes no difference.
-/

set_option autoImplicit false

namespace ProtoBind

/-! ### Symbols of a graph -/

theorem mem_symbols_iff {file : FileNode} {place : Nat} {s : Symbol} :
    s ∈ file.symbols place ↔
      (∃ index, s = .enum place index ∧ index < file.enums.length) ∨
        ∃ index, s = .message place index ∧ index < file.messages.length := by
  simp only [FileNode.symbols, List.mem_append, List.mem_map, List.mem_range]
  constructor
  · rintro (⟨index, hIndex, rfl⟩ | ⟨index, hIndex, rfl⟩)
    · exact .inl ⟨index, rfl, hIndex⟩
    · exact .inr ⟨index, rfl, hIndex⟩
  · rintro (⟨index, rfl, hIndex⟩ | ⟨index, rfl, hIndex⟩)
    · exact .inl ⟨index, hIndex, rfl⟩
    · exact .inr ⟨index, hIndex, rfl⟩

theorem file_of_mem_symbols {file : FileNode} {place : Nat} {s : Symbol} (h : s ∈ file.symbols place) :
    s.file = place := by
  rcases mem_symbols_iff.mp h with ⟨index, rfl, -⟩ | ⟨index, rfl, -⟩ <;> rfl

theorem nodup_symbols (file : FileNode) (place : Nat) : (file.symbols place).Nodup := by
  rw [FileNode.symbols, List.nodup_append]
  refine ⟨List.nodup_range.map ?_, List.nodup_range.map ?_, ?_⟩
  · intro i j h
    exact (Symbol.enum.inj h).2
  · intro i j h
    exact (Symbol.message.inj h).2
  · intro s hEnum t hMessage hSame
    obtain ⟨i, -, rfl⟩ := List.mem_map.mp hEnum
    obtain ⟨j, -, rfl⟩ := List.mem_map.mp hMessage
    cases hSame

namespace Graph

theorem mem_symbols_iff {g : Graph} {s : Symbol} :
    s ∈ g.symbols ↔ ∃ file, g.file? s.file = some file ∧ s ∈ file.symbols s.file := by
  simp only [symbols, List.mem_flatten, List.mem_mapIdx]
  constructor
  · rintro ⟨_, ⟨place, hPlace, rfl⟩, hMem⟩
    rw [file_of_mem_symbols hMem]
    exact ⟨g.files[place], List.getElem?_eq_getElem hPlace, hMem⟩
  · rintro ⟨file, hFile, hMem⟩
    obtain ⟨hPlace, rfl⟩ := List.getElem?_eq_some_iff.mp hFile
    exact ⟨_, ⟨s.file, hPlace, rfl⟩, hMem⟩

theorem nodup_symbols (g : Graph) : g.symbols.Nodup := by
  rw [symbols, List.nodup_flatten]
  constructor
  · intro list hList
    obtain ⟨place, hPlace, rfl⟩ := List.mem_mapIdx.mp hList
    exact ProtoBind.nodup_symbols _ _
  · rw [List.pairwise_iff_getElem]
    intro i j hI hJ hLess s hS hT
    rw [List.getElem_mapIdx] at hS hT
    exact absurd ((file_of_mem_symbols hS).symm.trans (file_of_mem_symbols hT)) (Nat.ne_of_lt hLess)

def indexName (g : Graph) (s : Symbol) : String := dropDot (g.fullName s)

def NamesDiffer (g : Graph) : Prop :=
  ∀ s ∈ g.symbols, ∀ t ∈ g.symbols, g.indexName s = g.indexName t → s = t

end Graph

namespace NameIndex

/-! ### What an index knows -/

theorem foldlM_add_spec {entries : List (String × Symbol)} {index last : NameIndex}
    (h : entries.foldlM add index = .ok last) :
    (entries.map (·.1)).Nodup ∧ (∀ e ∈ entries, index.table.get? e.1 = none) ∧
      ∀ name s, last.table.get? name = some s ↔ index.table.get? name = some s ∨ (name, s) ∈ entries := by
  induction entries generalizing index with
  | nil =>
    cases h
    exact ⟨List.nodup_nil, fun e hE => absurd hE List.not_mem_nil, fun name s => by simp⟩
  | cons e rest ih =>
    rw [List.foldlM_cons, add] at h
    cases hFree : index.table.get? e.1 with
    | some s =>
      rw [hFree] at h
      cases h
    | none =>
      rw [hFree] at h
      obtain ⟨hNodup, hFresh, hGet⟩ := ih h
      -- What the rest of the run finds free was free before and is not the name put in first.
      have hOther : ∀ other ∈ rest, other.1 ≠ e.1 ∧ index.table.get? other.1 = none := by
        intro other hMem
        have hNone := hFresh other hMem
        rw [Table.get?_insert] at hNone
        split at hNone
        · cases hNone
        · exact ⟨‹_›, hNone⟩
      refine ⟨?_, ?_, ?_⟩
      · rw [List.map_cons, List.nodup_cons]
        refine ⟨?_, hNodup⟩
        rw [List.mem_map]
        rintro ⟨other, hMem, hSame⟩
        exact (hOther other hMem).1 hSame
      · intro other hMem
        rcases List.mem_cons.mp hMem with rfl | hMem
        · exact hFree
        · exact (hOther other hMem).2
      · intro name s
        rw [hGet, Table.get?_insert, List.mem_cons]
        by_cases hName : name = e.1
        · subst hName
          rw [if_pos rfl, hFree]
          constructor
          · rintro (hSome | hMem)
            · cases hSome
              exact .inr (.inl rfl)
            · exact .inr (.inr hMem)
          · rintro (hNone | hHead | hMem)
            · cases hNone
            · rw [← hHead]
              exact .inl rfl
            · exact .inr hMem
        · rw [if_neg hName]
          constructor
          · exact Or.imp_right .inr
          · rintro (hSome | hHead | hMem)
            · exact .inl hSome
            · exact absurd (congrArg Prod.fst hHead) hName
            · exact .inr hMem

theorem foldlM_add_ok {entries : List (String × Symbol)} {index : NameIndex}
    (hNodup : (entries.map (·.1)).Nodup) (hFresh : ∀ e ∈ entries, index.table.get? e.1 = none) :
    ∃ last, entries.foldlM add index = .ok last := by
  induction entries generalizing index with
  | nil => exact ⟨index, rfl⟩
  | cons e rest ih =>
    rw [List.map_cons, List.nodup_cons] at hNodup
    rw [List.foldlM_cons, add, hFresh e List.mem_cons_self]
    refine ih hNodup.2 fun other hMem => ?_
    rw [Table.get?_insert, if_neg, hFresh other (List.mem_cons_of_mem _ hMem)]
    exact fun hSame => hNodup.1 (hSame ▸ List.mem_map_of_mem hMem)

theorem nodup_names {g : Graph} (h : g.NamesDiffer) : (g.symbols.map g.indexName).Nodup :=
  List.Nodup.map_on (fun s hS t hT hSame => h s hS t hT hSame) g.nodup_symbols

theorem map_fst_entries (g : Graph) :
    (g.symbols.map fun s => (dropDot (g.fullName s), s)).map (·.1) = g.symbols.map g.indexName := by
  rw [List.map_map]
  rfl

theorem build_spec {g : Graph} {index : NameIndex} (h : build g = .ok index) :
    g.NamesDiffer ∧
      ∀ name s, index.table.get? name = some s ↔ s ∈ g.symbols ∧ g.indexName s = name := by
  obtain ⟨hNodup, -, hGet⟩ := foldlM_add_spec h
  rw [map_fst_entries] at hNodup
  constructor
  · exact fun s hS t hT hSame => List.inj_on_of_nodup_map hNodup hS hT hSame
  · intro name s
    rw [hGet, Table.get?_empty, List.mem_map]
    constructor
    · rintro (hNone | ⟨t, hT, hSame⟩)
      · cases hNone
      · cases hSame
        exact ⟨hT, rfl⟩
    · rintro ⟨hS, rfl⟩
      exact .inr ⟨s, hS, rfl⟩

theorem build_ok {g : Graph} (h : g.NamesDiffer) : ∃ index, build g = .ok index := by
  refine foldlM_add_ok ?_ fun e _ => Table.get?_empty _
  rw [map_fst_entries]
  exact nodup_names h

end NameIndex

/-! ### Indices of renumbered graphs -/

namespace Graph.Moved

variable {ρ : Nat → Nat} {g k : Graph} (h : Graph.Moved ρ g k)
include h

theorem mem_symbols {s : Symbol} : s.renumber ρ ∈ k.symbols ↔ s ∈ g.symbols := by
  rw [mem_symbols_iff, mem_symbols_iff, Symbol.file_renumber]
  have hFile := h.file s.file
  generalize g.file? s.file = a at hFile ⊢
  generalize k.file? (ρ s.file) = b at hFile ⊢
  cases hFile with
  | none => simp
  | @some a b hSame =>
    simp only [Option.some.injEq, exists_eq_left', ProtoBind.mem_symbols_iff, hSame.enums, hSame.messages]
    cases s <;> simp [Symbol.renumber, Symbol.file]

theorem exists_renumber (hSurjective : Function.Surjective ρ) {t : Symbol} (hT : t ∈ k.symbols) :
    ∃ s ∈ g.symbols, t = s.renumber ρ := by
  obtain ⟨file, hFile, hMem⟩ := mem_symbols_iff.mp hT
  obtain ⟨place, hPlace⟩ := hSurjective t.file
  rcases ProtoBind.mem_symbols_iff.mp hMem with ⟨index, hSymbol, -⟩ | ⟨index, hSymbol, -⟩
  · have hSame : t = (Symbol.enum place index).renumber ρ := by rw [hSymbol, Symbol.renumber, hPlace]
    exact ⟨_, h.mem_symbols.mp (hSame ▸ hT), hSame⟩
  · have hSame : t = (Symbol.message place index).renumber ρ := by rw [hSymbol, Symbol.renumber, hPlace]
    exact ⟨_, h.mem_symbols.mp (hSame ▸ hT), hSame⟩

theorem indexName (s : Symbol) : k.indexName (s.renumber ρ) = g.indexName s := by
  rw [Graph.indexName, h.fullName, Graph.indexName]

theorem namesDiffer (hSurjective : Function.Surjective ρ) (hDiffer : g.NamesDiffer) : k.NamesDiffer := by
  intro _ hFirst _ hSecond hSame
  obtain ⟨s, hS, rfl⟩ := h.exists_renumber hSurjective hFirst
  obtain ⟨t, hT, rfl⟩ := h.exists_renumber hSurjective hSecond
  rw [h.indexName, h.indexName] at hSame
  rw [hDiffer s hS t hT hSame]

/-- An index of the one graph finds what an index of the other one finds. -/
theorem index (hSurjective : Function.Surjective ρ) {i : NameIndex} (hIndex : NameIndex.build g = .ok i) :
    ∃ j, NameIndex.build k = .ok j ∧
      ∀ name, Alike (fun a b => b = a.renumber ρ) (i.get name) (j.get name) := by
  obtain ⟨hDiffer, hGet⟩ := NameIndex.build_spec hIndex
  obtain ⟨j, hOther⟩ := NameIndex.build_ok (h.namesDiffer hSurjective hDiffer)
  obtain ⟨hOtherDiffer, hOtherGet⟩ := NameIndex.build_spec hOther
  refine ⟨j, hOther, fun name => ?_⟩
  have hSame : j.table.get? (dropDot name) = (i.table.get? (dropDot name)).map (Symbol.renumber ρ) := by
    cases hFound : i.table.get? (dropDot name) with
    | some s =>
      obtain ⟨hS, hName⟩ := (hGet _ _).mp hFound
      exact (hOtherGet _ _).mpr ⟨h.mem_symbols.mpr hS, (h.indexName s).trans hName⟩
    | none =>
      rw [Option.map_none, Option.eq_none_iff_forall_ne_some]
      intro t hT
      obtain ⟨hMem, hName⟩ := (hOtherGet _ _).mp hT
      obtain ⟨s, hS, rfl⟩ := h.exists_renumber hSurjective hMem
      rw [h.indexName] at hName
      rw [(hGet _ _).mpr ⟨hS, hName⟩] at hFound
      cases hFound
  rw [NameIndex.get, NameIndex.get, hSame]
  cases i.table.get? (dropDot name) with
  | none => exact .error _
  | some s => exact .ok rfl

end Graph.Moved

end ProtoBind
