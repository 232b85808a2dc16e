import Mathlib.Data.List.Induction
import Mathlib.Data.List.Nodup
import Mathlib.Data.List.Perm.Subperm
import ProtoBind.Table

/-!
# What tables answer

A table answers with the pairs that it has, one table inserted into another with its own pairs first, and
tables that answer alike are equal.
-/

set_option autoImplicit false

namespace ProtoBind

/-! ### Entries -/

theorem mem_of_entryAt? {β : Type} {key : String} {value : β} {entries : List (String × β)}
    (h : entryAt? key entries = some value) : (key, value) ∈ entries := by
  induction entries with
  | nil => cases h
  | cons head rest ih =>
    obtain ⟨k, v⟩ := head
    rw [entryAt?] at h
    split at h
    · rename_i hKey
      cases h
      exact hKey ▸ List.mem_cons_self
    · exact List.mem_cons_of_mem _ (ih h)

theorem entryAt?_append {β : Type} (key : String) (front back : List (String × β)) :
    entryAt? key (front ++ back) = (entryAt? key front).or (entryAt? key back) := by
  induction front with
  | nil => rfl
  | cons head rest ih =>
    obtain ⟨k, v⟩ := head
    rw [List.cons_append, entryAt?, entryAt?, ih]
    split <;> rfl

theorem entryAt?_eq_none_iff {β : Type} {key : String} {entries : List (String × β)} :
    entryAt? key entries = none ↔ ∀ e ∈ entries, e.1 ≠ key := by
  induction entries with
  | nil => exact iff_of_true rfl fun e hE => absurd hE List.not_mem_nil
  | cons head rest ih =>
    obtain ⟨k, v⟩ := head
    rw [entryAt?, List.forall_mem_cons]
    split
    · rename_i hKey
      exact iff_of_false (Option.some_ne_none v) fun h => h.1 hKey.symm
    · rename_i hKey
      exact ih.trans ⟨fun h => ⟨Ne.symm hKey, h⟩, fun h => h.2⟩

theorem Table.get?_insertAll_of_nodup {β : Type} {pairs : List (String × β)} (h : (pairs.map (·.1)).Nodup)
    (t : Table β) (key : String) :
    (t.insertAll pairs).get? key = (entryAt? key pairs).or (t.get? key) := by
  induction pairs generalizing t with
  | nil => rfl
  | cons head rest ih =>
    obtain ⟨k, v⟩ := head
    rw [List.map_cons, List.nodup_cons] at h
    change ((t.insert k v).insertAll rest).get? key = _
    rw [ih h.2, Table.get?_insert, entryAt?]
    split
    · rename_i hKey
      have hNone : entryAt? key rest = none := by
        rw [entryAt?_eq_none_iff]
        intro e hE hSame
        exact h.1 (List.mem_map.mpr ⟨e, hE, hSame.trans hKey⟩)
      rw [hNone]
      rfl
    · rfl

/-- In a table of pairs with different keys each pair is found. -/
theorem Table.get?_ofList {β : Type} {pairs : List (String × β)} (h : (pairs.map (·.1)).Nodup)
    (key : String) : (Table.ofList pairs).get? key = entryAt? key pairs := by
  rw [Table.ofList, get?_insertAll_of_nodup h, Table.get?_empty, Option.or_none]

theorem entryAt?_eq_some_iff {β : Type} {key : String} {value : β} {pairs : List (String × β)}
    (h : (pairs.map (·.1)).Nodup) : entryAt? key pairs = some value ↔ (key, value) ∈ pairs := by
  constructor
  · exact mem_of_entryAt?
  · intro hMem
    cases hFound : entryAt? key pairs with
    | none => exact absurd rfl (entryAt?_eq_none_iff.mp hFound (key, value) hMem)
    | some other =>
      have hSame := List.inj_on_of_nodup_map h (mem_of_entryAt? hFound) hMem rfl
      rw [Prod.mk.injEq] at hSame
      rw [hSame.2]

namespace Table

variable {β : Type}

theorem nodup_keys (t : Table β) : (t.toList.map (·.1)).Nodup := by
  rw [List.Nodup, List.pairwise_map]
  refine t.ascending.imp ?_
  rintro a b hLess hSame
  rw [hSame] at hLess
  exact String.lt_irrefl b.1 hLess

theorem get?_eq_some_iff {t : Table β} {key : String} {value : β} :
    t.get? key = some value ↔ (key, value) ∈ t.toList :=
  entryAt?_eq_some_iff t.nodup_keys

theorem insertAll_append (t : Table β) (front back : List (String × β)) :
    t.insertAll (front ++ back) = (t.insertAll front).insertAll back :=
  List.foldl_append

/-- Of several pairs with one key the last one counts. -/
theorem get?_ofPairs (pairs : List (String × β)) (key : String) :
    (ofList pairs).get? key = entryAt? key pairs.reverse := by
  induction pairs using List.reverseRecOn with
  | nil => rfl
  | append_singleton pairs pair ih =>
    rw [ofList, insertAll_append, List.reverse_append, List.reverse_singleton, List.singleton_append]
    change ((ofList pairs).insert pair.1 pair.2).get? key = _
    rw [get?_insert, ih, entryAt?]

theorem get?_ofList_append (front back : List (String × β)) (key : String) :
    (ofList (front ++ back)).get? key = ((ofList back).get? key).or ((ofList front).get? key) := by
  rw [get?_ofPairs, get?_ofPairs, get?_ofPairs, List.reverse_append, entryAt?_append]

theorem get?_ofList_singleton (key other : String) (value : β) :
    (ofList [(key, value)]).get? other = if other = key then some value else none := rfl

/-- A table answers with the last of the pairs that it was made of. -/
theorem get?_ofList_eq_some_iff {pairs : List (String × β)} {key : String} {value : β} :
    (ofList pairs).get? key = some value ↔
      ∃ front back, pairs = front ++ (key, value) :: back ∧ ∀ e ∈ back, e.1 ≠ key := by
  constructor
  · intro h
    induction pairs using List.reverseRecOn with
    | nil => cases h
    | append_singleton pairs pair ih =>
      rw [get?_ofList_append, get?_ofList_singleton] at h
      split at h
      · rename_i hKey
        cases h
        exact ⟨pairs, [], by rw [hKey], fun e hE => absurd hE List.not_mem_nil⟩
      · rename_i hKey
        obtain ⟨front, back, rfl, hBack⟩ := ih h
        refine ⟨front, back ++ [pair], by simp, ?_⟩
        rw [List.forall_mem_append, List.forall_mem_singleton]
        exact ⟨hBack, Ne.symm hKey⟩
  · rintro ⟨front, back, rfl, hBack⟩
    have hNone : (ofList back).get? key = none := by
      rw [get?_ofPairs, entryAt?_eq_none_iff]
      exact fun e hE => hBack e (List.mem_reverse.mp hE)
    rw [List.append_cons, get?_ofList_append, hNone, get?_ofList_append, get?_ofList_singleton, if_pos rfl]
    rfl

/-- A table has all of its pairs just where their keys differ. -/
theorem perm_ofList_iff {pairs : List (String × β)} :
    (ofList pairs).toList.Perm pairs ↔ (pairs.map (·.1)).Nodup := by
  constructor
  · intro h
    exact (h.map (·.1)).nodup_iff.mp (nodup_keys _)
  · intro h
    refine (List.perm_ext_iff_of_nodup (nodup_keys _).of_map h.of_map).mpr ?_
    rintro ⟨key, value⟩
    rw [← get?_eq_some_iff, get?_ofList h, entryAt?_eq_some_iff h]

theorem get?_insertAll_toList (t later : Table β) (key : String) :
    (t.insertAll later.toList).get? key = (later.get? key).or (t.get? key) :=
  get?_insertAll_of_nodup later.nodup_keys t key

/-- Tables that answer alike are equal. -/
theorem ext_get? {s t : Table β} (h : ∀ key, s.get? key = t.get? key) : s = t := by
  have hPerm : s.toList.Perm t.toList := by
    refine (List.perm_ext_iff_of_nodup s.nodup_keys.of_map t.nodup_keys.of_map).mpr ?_
    rintro ⟨key, value⟩
    rw [← get?_eq_some_iff, ← get?_eq_some_iff, h]
  refine ext (hPerm.eq_of_pairwise ?_ s.ascending t.ascending)
  intro a b _ _ hLess hMore
  exact absurd (String.lt_trans hLess hMore) (String.lt_irrefl a.1)

end Table

end ProtoBind
