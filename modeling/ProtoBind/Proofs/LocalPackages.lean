import ProtoBind.Emit.LocalNames
import ProtoBind.Proofs.Numerals
import ProtoBind.Proofs.Tables

/-!
# Packages under local names

Every package that an emitted file mentions gets one local name, no two packages get the same, and the
file introduces each of them.
-/

set_option autoImplicit false

namespace ProtoBind.Naming

/-- Of more different candidates than names are busy, the first that is free is found. -/
theorem firstFree_not_mem {candidate : Nat → String} (h : Function.Injective candidate)
    (busy : List String) : firstFree busy candidate ∉ busy := by
  unfold firstFree freeIndex
  cases hFound : (List.range (busy.length + 1)).find? fun i => !busy.contains (candidate i) with
  | some i =>
    have hFree := List.find?_some hFound
    simpa using hFree
  | none =>
    exfalso
    have hSubset : (List.range (busy.length + 1)).map candidate ⊆ busy := by
      intro name hName
      obtain ⟨i, hI, rfl⟩ := List.mem_map.mp hName
      simpa using List.find?_eq_none.mp hFound i hI
    have hLength := (List.subperm_of_subset (List.Nodup.map h List.nodup_range) hSubset).length_le
    rw [List.length_map, List.length_range] at hLength
    omega

end ProtoBind.Naming

namespace ProtoBind

namespace Emit

open Naming Text

theorem numbered_injective (base : String) : Function.Injective (numbered base) := by
  have hPositive : ∀ n : Nat, base ≠ base ++ toString (n + 1) := by
    intro n h
    have hLength := congrArg String.length h
    rw [String.length_append] at hLength
    have hEmpty : (toString (n + 1)).length = 0 := by omega
    exact Nat.repr_ne_empty (String.length_eq_zero_iff.mp hEmpty)
  intro i j h
  cases i with
  | zero =>
    cases j with
    | zero => rfl
    | succ j => exact absurd h (hPositive j)
  | succ i =>
    cases j with
    | zero => exact absurd h.symm (hPositive i)
    | succ j => exact nat_of_toString ((String.append_right_inj base).mp h)

namespace LocalNames

structure Distinct (names : LocalNames) : Prop where
  paths : (names.entries.map (·.1)).Nodup
  names : (names.entries.map (·.2)).Nodup

theorem Distinct.add {names : LocalNames} (h : Distinct names) (importPath : String) :
    Distinct (names.add importPath) := by
  unfold LocalNames.add
  split
  · exact h
  · rename_i hNew
    have hPath : ∀ e ∈ names.entries, e.1 ≠ importPath := entryAt?_eq_none_iff.mp hNew
    have hName : names.fresh importPath ∉ names.busy :=
      firstFree_not_mem (numbered_injective _) names.busy
    constructor
    · rw [List.map_append, List.nodup_append]
      refine ⟨h.paths, List.pairwise_singleton _ _, ?_⟩
      intro path hMem other hOther
      obtain ⟨e, hE, rfl⟩ := List.mem_map.mp hMem
      rw [List.mem_singleton.mp hOther]
      exact hPath e hE
    · rw [List.map_append, List.nodup_append]
      refine ⟨h.names, List.pairwise_singleton _ _, ?_⟩
      intro name hMem other hOther hSame
      rw [hSame, List.mem_singleton.mp hOther] at hMem
      exact hName (List.mem_append_left _ (List.mem_append_left _ hMem))

theorem get?_add (names : LocalNames) (importPath other : String) {name : String}
    (h : names.get? other = some name) : (names.add importPath).get? other = some name := by
  unfold LocalNames.add
  split
  · exact h
  · rw [get?, entryAt?_append, show entryAt? other names.entries = some name from h]
    rfl

theorem isSome_get?_add (names : LocalNames) (importPath : String) :
    ((names.add importPath).get? importPath).isSome = true := by
  unfold LocalNames.add
  split
  · rename_i hOld
    rw [hOld]
    rfl
  · rw [get?, entryAt?_append, entryAt?, if_pos rfl]
    cases entryAt? importPath names.entries <;> rfl

/-- What holds of every package and a name that is new for it holds of all entries. -/
theorem forall_ofPaths {importPaths : List String} {P : String → String → Prop}
    (h : ∀ (names : LocalNames), ∀ path ∈ importPaths, P path (names.fresh path)) :
    ∀ e ∈ (ofPaths importPaths).entries, P e.1 e.2 := by
  have hFold : ∀ (paths : List String) (names : LocalNames), (∀ path ∈ paths, path ∈ importPaths) →
      (∀ e ∈ names.entries, P e.1 e.2) → ∀ e ∈ (paths.foldl LocalNames.add names).entries, P e.1 e.2 := by
    intro paths
    induction paths with
    | nil => exact fun names _ hNames => hNames
    | cons path rest ih =>
      intro names hPaths hNames
      apply ih _ fun other hMem => hPaths other (List.mem_cons_of_mem _ hMem)
      unfold LocalNames.add
      split
      · exact hNames
      · intro e hMem
        rcases List.mem_append.mp hMem with hOld | hNew
        · exact hNames e hOld
        · obtain rfl := List.mem_singleton.mp hNew
          exact h names path (hPaths path List.mem_cons_self)
  exact hFold importPaths {} (fun _ hMem => hMem) (fun e hMem => absurd hMem List.not_mem_nil)

theorem distinct_ofPaths (importPaths : List String) : Distinct (ofPaths importPaths) := by
  have hFold : ∀ names : LocalNames, Distinct names → Distinct (importPaths.foldl LocalNames.add names) := by
    induction importPaths with
    | nil => exact fun _ h => h
    | cons path rest ih => exact fun names h => ih _ (h.add path)
  exact hFold {} ⟨List.nodup_nil, List.nodup_nil⟩

/-- Every package that is mentioned has a name. -/
theorem exists_get?_ofPaths {importPaths : List String} {importPath : String} (h : importPath ∈ importPaths) :
    ∃ name, (ofPaths importPaths).get? importPath = some name := by
  have hKept : ∀ (paths : List String) (names : LocalNames) (name : String),
      names.get? importPath = some name →
        (paths.foldl LocalNames.add names).get? importPath = some name := by
    intro paths
    induction paths with
    | nil => exact fun _ _ h => h
    | cons path rest ih => exact fun names name h => ih _ _ (get?_add names path importPath h)
  have hFold : ∀ names : LocalNames, ∃ name,
      (importPaths.foldl LocalNames.add names).get? importPath = some name := by
    induction importPaths with
    | nil => exact absurd h List.not_mem_nil
    | cons path rest ih =>
      intro names
      rcases List.mem_cons.mp h with rfl | hRest
      · obtain ⟨name, hName⟩ := Option.isSome_iff_exists.mp (isSome_get?_add names importPath)
        exact ⟨name, hKept rest _ name hName⟩
      · exact ih hRest _
  exact hFold {}

/-- How an emitted file introduces a package: under one local name that no other package has. -/
structure Introduces (params : Parameters) (names : LocalNames) (uses : List Line) (importPath : String)
    (name : String) : Prop where
  get? : names.get? importPath = some name
  use : code (params.packageUse importPath name) ∈ uses
  unique : ∀ other, names.get? other = some name → other = importPath

theorem Distinct.introduces {names : LocalNames} (h : Distinct names) (params : Parameters)
    {importPath name : String} (hName : names.get? importPath = some name) :
    Introduces params names (params.packageUses names) importPath name := by
  refine ⟨hName, ?_, ?_⟩
  · refine List.mem_map.mpr ⟨(importPath, name), ?_, rfl⟩
    exact mem_of_entryAt? ((Table.get?_ofList h.paths importPath).trans hName)
  · intro other hOther
    have hFirst := mem_of_entryAt? hName
    have hSecond := mem_of_entryAt? hOther
    exact congrArg Prod.fst (List.inj_on_of_nodup_map h.names hSecond hFirst rfl)

end LocalNames

end Emit

end ProtoBind
