import Mathlib.Data.List.Count
import ProtoBind.Proofs.NameForms

/-!
# Names given out in turn

Each request gets the name it asks for, with as few suffixes as keep it apart from all names given out
before. Which names are given out in the end depends only on how often each of them is asked for.
-/

set_option autoImplicit false

namespace ProtoBind.Naming

open Text

theorem candidate_mem_of_lt_freeIndex {busy : List String} {candidate : Nat → String} {i : Nat}
    (h : i < freeIndex busy candidate) : candidate i ∈ busy := by
  unfold freeIndex at h
  cases hFound : (List.range (busy.length + 1)).find? fun i => !busy.contains (candidate i) with
  | some j =>
    rw [hFound] at h
    simpa using (List.find?_range_eq_some.mp hFound).2.2 i h
  | none =>
    rw [hFound] at h
    simpa using List.find?_eq_none.mp hFound i (List.mem_range.mpr h)

theorem repeatedly_eq_iff {suffix : String} (hSuffix : suffix ≠ "") (name : String) {n : Nat} :
    repeatedly suffix name n = name ↔ n = 0 := by
  constructor
  · intro h
    exact repeatedly_injective hSuffix name (h.trans rfl)
  · rintro rfl
    rfl

section

variable {suffix : String} (hSuffix : suffix ≠ "") {busy : List String} {name : String}
include hSuffix

theorem withSuffix_not_mem : withSuffix suffix busy name ∉ busy :=
  firstFree_not_mem (repeatedly_injective hSuffix name) busy

theorem withSuffix_of_not_mem (h : name ∉ busy) : withSuffix suffix busy name = name := by
  apply (repeatedly_eq_iff hSuffix name).mpr
  by_contra hIndex
  exact h (candidate_mem_of_lt_freeIndex (Nat.pos_of_ne_zero hIndex))

theorem mem_cons_withSuffix : name ∈ withSuffix suffix busy name :: busy := by
  by_cases h : name ∈ busy
  · exact List.mem_cons_of_mem _ h
  · rw [withSuffix_of_not_mem hSuffix h]
    exact List.mem_cons_self

/-- A name that is taken is given out with one suffix, unless that is taken as well. -/
theorem mem_cons_withSuffix_of_mem (h : name ∈ busy) :
    name ++ suffix ∈ withSuffix suffix busy name :: busy := by
  by_cases hNext : name ++ suffix ∈ busy
  · exact List.mem_cons_of_mem _ hNext
  · have hBelow : freeIndex busy (repeatedly suffix name) ≤ 1 := by
      by_contra hAbove
      exact hNext (candidate_mem_of_lt_freeIndex (Nat.lt_of_not_le hAbove))
    have hIndex : freeIndex busy (repeatedly suffix name) = 1 := by
      apply Nat.le_antisymm hBelow
      apply Nat.pos_of_ne_zero
      intro hZero
      have hName : withSuffix suffix busy name = name := (repeatedly_eq_iff hSuffix name).mpr hZero
      exact withSuffix_not_mem hSuffix (hName.symm ▸ h)
    have hName : withSuffix suffix busy name = name ++ suffix := congrArg (repeatedly suffix name) hIndex
    rw [hName]
    exact List.mem_cons_self

end

def given (suffix : String) (requests : List String) : List String :=
  requests.foldl (fun used request => withSuffix suffix used request :: used) []

theorem given_concat (suffix : String) (requests : List String) (request : String) :
    given suffix (requests ++ [request])
      = withSuffix suffix (given suffix requests) request :: given suffix requests := by
  rw [given, List.foldl_append]
  rfl

theorem length_given (suffix : String) (requests : List String) :
    (given suffix requests).length = requests.length := by
  induction requests using List.reverseRecOn with
  | nil => rfl
  | append_singleton front request ih =>
    rw [given_concat, List.length_cons, ih, List.length_append]
    rfl

theorem exists_request {suffix : String} {requests : List String} {word : String}
    (h : word ∈ given suffix requests) : ∃ request ∈ requests, ∃ n, word = repeatedly suffix request n := by
  induction requests using List.reverseRecOn with
  | nil => cases h
  | append_singleton front request ih =>
    rw [given_concat, List.mem_cons] at h
    rcases h with hLast | hFront
    · exact ⟨request, by simp, _, hLast⟩
    · obtain ⟨other, hOther, hWord⟩ := ih hFront
      exact ⟨other, List.mem_append_left _ hOther, hWord⟩

section

variable {suffix : String} (hSuffix : suffix ≠ "") {requests : List String} {word : String}
include hSuffix

theorem nodup_given (requests : List String) : (given suffix requests).Nodup := by
  induction requests using List.reverseRecOn with
  | nil => exact List.nodup_nil
  | append_singleton front request ih =>
    rw [given_concat]
    exact List.nodup_cons.mpr ⟨withSuffix_not_mem hSuffix, ih⟩

theorem mem_given_of_mem (h : word ∈ requests) : word ∈ given suffix requests := by
  induction requests using List.reverseRecOn with
  | nil => cases h
  | append_singleton front request ih =>
    rw [given_concat]
    rcases List.mem_append.mp h with hFront | hLast
    · exact List.mem_cons_of_mem _ (ih hFront)
    · rw [List.mem_singleton.mp hLast]
      exact mem_cons_withSuffix hSuffix

variable (hBare : ∀ request ∈ requests, ∀ n, repeatedly suffix request n = word → n = 0)
include hBare

/-- A name that no shorter one grows into is given out exactly if it is asked for. -/
theorem mem_given_iff : word ∈ given suffix requests ↔ word ∈ requests := by
  constructor
  · induction requests using List.reverseRecOn with
    | nil => exact id
    | append_singleton front request ih =>
      intro h
      rw [given_concat, List.mem_cons] at h
      rw [List.mem_append, List.mem_singleton]
      rcases h with hLast | hFront
      · right
        have hZero := hBare request (by simp) _ hLast.symm
        exact hLast.trans (congrArg (repeatedly suffix request) hZero)
      · left
        exact ih (fun other hOther => hBare other (List.mem_append_left _ hOther)) hFront
  · exact mem_given_of_mem hSuffix

/-- With one suffix, the name is given out if that is asked for, or the name itself for a second time. -/
theorem suffixed_mem_given_iff :
    word ++ suffix ∈ given suffix requests ↔ word ++ suffix ∈ requests ∨ 2 ≤ requests.count word := by
  induction requests using List.reverseRecOn with
  | nil => simp [given]
  | append_singleton front request ih =>
    have hFront : ∀ other ∈ front, ∀ n, repeatedly suffix other n = word → n = 0 :=
      fun other hOther => hBare other (List.mem_append_left _ hOther)
    have hApart : word ++ suffix ≠ word := fun h => hSuffix ((String.append_eq_left_iff).mp h)
    rw [given_concat, List.mem_append, List.mem_singleton, List.count_append, List.count_singleton]
    -- A request for the word gives the suffixed name out only if the word is already taken.
    by_cases hSame : request = word
    · subst hSame
      have hGiven := mem_given_iff hSuffix hFront
      simp only [beq_self_eq_true, if_true, hApart, or_false]
      by_cases hMem : request ∈ front
      · have hCount := List.count_pos_iff.mpr hMem
        refine iff_of_true (mem_cons_withSuffix_of_mem hSuffix (hGiven.mpr hMem)) (.inr ?_)
        omega
      · have hCount := List.count_eq_zero.mpr hMem
        rw [withSuffix_of_not_mem hSuffix (mt hGiven.mp hMem), List.mem_cons, ih hFront, hCount]
        simp [hApart]
    · have hCount : (if (request == word) = true then 1 else 0) = 0 := by simp [hSame]
      rw [hCount, Nat.add_zero, List.mem_cons, ih hFront]
      by_cases hNext : word ++ suffix = request
      · refine iff_of_true ?_ (.inl (.inr hNext))
        rw [← ih hFront, ← List.mem_cons, hNext]
        exact mem_cons_withSuffix hSuffix
      · have hOther : word ++ suffix ≠ withSuffix suffix (given suffix front) request := by
          obtain ⟨n, hName⟩ := withSuffix_eq suffix (given suffix front) request
          rw [hName]
          intro h
          cases n with
          | zero => exact hNext h
          | succ n =>
            have hWord : repeatedly suffix request n = word := (String.append_left_inj suffix).mp h.symm
            rw [hBare request (by simp) n hWord] at hWord
            exact hSame hWord
        simp [hOther, hNext]

end

end ProtoBind.Naming
