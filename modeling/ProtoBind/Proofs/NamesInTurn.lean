import ProtoBind.Proofs.GivenNames

/-!
# Requests answered in turn

A name grows by one suffix for as long as it is busy. The loop ends at the least grown name that is free, so names
that are busy from then on are never given out again.
-/

set_option autoImplicit false

namespace ProtoBind.Naming

/-- The name that comes of a request with the least number of suffixes that makes it free. -/
def LeastFree (suffix : String) (busy : List String) (request name : String) : Prop :=
  ∃ n, name = repeatedly suffix request n ∧ name ∉ busy ∧ ∀ m < n, repeatedly suffix request m ∈ busy

/-- The loop that puts a suffix to a name while it is busy, from the name it begins with to the one it ends with. -/
inductive GrowsTo (suffix : String) (busy : List String) : String → String → Prop where
  | done {name : String} (hFree : name ∉ busy) : GrowsTo suffix busy name name
  | more {name last : String} (hBusy : name ∈ busy) (hRest : GrowsTo suffix busy (name ++ suffix) last) :
      GrowsTo suffix busy name last

/-- Names for some requests, in turn: each is the least grown one that was not busy before, and is busy from then on. -/
inductive InTurn (suffix : String) : List String → List String → List String → Prop where
  | nil {busy : List String} : InTurn suffix busy [] []
  | cons {busy : List String} {request name : String} {requests names : List String}
      (hHead : LeastFree suffix busy request name) (hRest : InTurn suffix (name :: busy) requests names) :
      InTurn suffix busy (request :: requests) (name :: names)

section

variable {suffix : String} {busy other : List String} {request name : String}

theorem repeatedly_append_suffix (suffix request : String) (n : Nat) :
    repeatedly suffix (request ++ suffix) n = repeatedly suffix request (n + 1) := by
  induction n with
  | zero => rfl
  | succ n ih => exact congrArg (· ++ suffix) ih

theorem LeastFree.congr (h : LeastFree suffix busy request name) (hSame : ∀ word, word ∈ busy ↔ word ∈ other) :
    LeastFree suffix other request name := by
  obtain ⟨n, hName, hFree, hLeast⟩ := h
  exact ⟨n, hName, mt (hSame name).mpr hFree, fun m hLess => (hSame _).mp (hLeast m hLess)⟩

theorem growsTo_of_leastFree (h : LeastFree suffix busy request name) : GrowsTo suffix busy request name := by
  obtain ⟨n, hName, hFree, hLeast⟩ := h
  induction n generalizing request with
  | zero =>
    cases hName
    exact .done hFree
  | succ n ih =>
    refine .more (hLeast 0 n.succ_pos) (ih ?_ ?_)
    · rw [hName, repeatedly_append_suffix]
    · intro m hLess
      rw [repeatedly_append_suffix]
      exact hLeast (m + 1) (Nat.succ_lt_succ hLess)

section

variable (hSuffix : suffix ≠ "")
include hSuffix

theorem leastFree_withSuffix (busy : List String) (request : String) :
    LeastFree suffix busy request (withSuffix suffix busy request) :=
  ⟨freeIndex busy (repeatedly suffix request), rfl, withSuffix_not_mem hSuffix,
    fun _ hLess => candidate_mem_of_lt_freeIndex hLess⟩

theorem growsTo_withSuffix (busy : List String) (request : String) :
    GrowsTo suffix busy request (withSuffix suffix busy request) :=
  growsTo_of_leastFree (leastFree_withSuffix hSuffix busy request)

end

end

namespace InTurn

variable {suffix : String} {busy other requests names : List String}

theorem congr (h : InTurn suffix busy requests names) (hSame : ∀ word, word ∈ busy ↔ word ∈ other) :
    InTurn suffix other requests names := by
  induction h generalizing other with
  | nil => exact .nil
  | cons hHead _ ih =>
    refine .cons (hHead.congr hSame) (ih fun word => ?_)
    rw [List.mem_cons, List.mem_cons, hSame]

theorem append {moreRequests moreNames : List String} (h : InTurn suffix busy requests names)
    (hMore : InTurn suffix (names ++ busy) moreRequests moreNames) :
    InTurn suffix busy (requests ++ moreRequests) (names ++ moreNames) := by
  induction h with
  | nil => exact hMore
  | cons hHead _ ih =>
    refine .cons hHead (ih (hMore.congr fun word => ?_))
    exact List.perm_middle.symm.mem_iff

theorem concat {request name : String} (h : InTurn suffix busy requests names)
    (hLast : LeastFree suffix (names ++ busy) request name) :
    InTurn suffix busy (requests ++ [request]) (names ++ [name]) := h.append (.cons hLast .nil)

theorem not_mem (h : InTurn suffix busy requests names) : ∀ name ∈ names, name ∉ busy := by
  induction h with
  | nil => exact fun name hName => absurd hName List.not_mem_nil
  | cons hHead _ ih =>
    obtain ⟨-, -, hFree, -⟩ := hHead
    rw [List.forall_mem_cons]
    exact ⟨hFree, fun name hName hBusy => ih name hName (List.mem_cons_of_mem _ hBusy)⟩

theorem nodup (h : InTurn suffix busy requests names) : names.Nodup := by
  induction h with
  | nil => exact List.nodup_nil
  | cons _ hRest ih => exact List.nodup_cons.mpr ⟨fun hMem => hRest.not_mem _ hMem List.mem_cons_self, ih⟩

/-- A name that is given out comes of a request. -/
theorem exists_request (h : InTurn suffix busy requests names) :
    ∀ name ∈ names, ∃ request ∈ requests, ∃ n, name = repeatedly suffix request n := by
  induction h with
  | nil => exact fun name hName => absurd hName List.not_mem_nil
  | @cons _ request name _ _ hHead _ ih =>
    obtain ⟨n, hName, -⟩ := hHead
    rw [List.forall_mem_cons]
    refine ⟨⟨request, List.mem_cons_self, n, hName⟩, fun other hOther => ?_⟩
    obtain ⟨wanted, hWanted, hForm⟩ := ih other hOther
    exact ⟨wanted, List.mem_cons_of_mem _ hWanted, hForm⟩

end InTurn

end ProtoBind.Naming
