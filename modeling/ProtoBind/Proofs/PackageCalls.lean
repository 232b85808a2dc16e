import ProtoBind.Proofs.NamesInTurn
import ProtoBind.Proofs.UseItems

/-!
# Packages asked for in turn

An emitted file asks for the local name of a package each time it refers to it. The first time settles the name: it is
the least numbered form of the base name that nothing else uses, and stays with the package whatever is asked for later.
-/

set_option autoImplicit false

namespace ProtoBind.Emit

open Naming

/-- The name with the least number, or none, that makes it free. -/
def LeastNumbered (busy : List String) (base name : String) : Prop :=
  ∃ n, name = numbered base n ∧ name ∉ busy ∧ ∀ m < n, numbered base m ∈ busy

/-- How a package comes in under a name: by the last segment of its module path, or by an alias. -/
structure BringsIn (segments : List String) (name item : String) : Prop where
  form : (item = "use " ++ "::".intercalate segments ++ ";" ∧ segments.getLast? = some name) ∨
    item = "use " ++ "::".intercalate segments ++ " as " ++ name ++ ";"
  bound : broughtIn item = name

namespace LocalNames

/-- The import paths of some calls, each with the name that the call answers. -/
def asked (names : LocalNames) : List String → List (String × String)
  | [] => []
  | path :: rest => (path, (names.add path).get path) :: (names.add path).asked rest

/-- What calls for local names answer: one name for each path, apart from those of all others and from what has another
meaning. A new path gets the least numbered form of its base name that no call has answered before. -/
structure Answered (log : List (String × String)) : Prop where
  same_iff : ∀ first ∈ log, ∀ second ∈ log, first.2 = second.2 ↔ first.1 = second.1
  apart : ∀ e ∈ log, e.2 ∉ keywords
    ∧ e.2 ∉ ["std", "core", "alloc", "serde", "serde_json", "router", "binding"]
  least : ∀ front path name back, log = front ++ (path, name) :: back → path ∉ front.map (·.1) →
    LeastNumbered (front.map (·.2) ++ keywords ++ reservedModules) (moduleName (baseName path)) name

/-- The items that bring in the packages of some calls: one for each package, under the name that was answered. -/
structure BroughtInOnce (params : Parameters) (log : List (String × String)) (items : List String) : Prop where
  once : ∀ e ∈ log, items.filter (broughtIn · = e.2) = [params.packageUse e.1 e.2] ∧
    BringsIn (params.packageSegments e.1) e.2 (params.packageUse e.1 e.2)
  all : ∀ item ∈ items, ∃ e ∈ log, item = params.packageUse e.1 e.2

/-! ### Names that stay -/

section

variable {names : LocalNames} {path name : String}

theorem get?_foldl_add (h : names.get? path = some name) (calls : List String) :
    (calls.foldl add names).get? path = some name := by
  induction calls generalizing names with
  | nil => exact h
  | cons call rest ih => exact ih (get?_add names call path h)

theorem get_foldl_add (calls : List String) :
    (calls.foldl add (names.add path)).get path = (names.add path).get path := by
  obtain ⟨name, hName⟩ := Option.isSome_iff_exists.mp (isSome_get?_add names path)
  rw [get, get, get?_foldl_add hName, hName]

end

theorem asked_eq (names : LocalNames) (calls : List String) :
    names.asked calls = calls.map fun path => (path, (calls.foldl add names).get path) := by
  induction calls generalizing names with
  | nil => rfl
  | cons path rest ih =>
    rw [asked, ih, List.map_cons, List.foldl_cons, get_foldl_add]

theorem asked_append (names : LocalNames) (front back : List String) :
    names.asked (front ++ back) = names.asked front ++ (front.foldl add names).asked back := by
  induction front generalizing names with
  | nil => rfl
  | cons path rest ih =>
    rw [List.cons_append, asked, ih]
    rfl

/-! ### The least free name -/

section

variable {calls : List String} {path : String}

theorem get?_of_mem (h : path ∈ calls) : (ofPaths calls).get? path = some ((ofPaths calls).get path) := by
  obtain ⟨name, hName⟩ := exists_get?_ofPaths h
  rw [get, hName, Option.getD_some]

theorem mem_names_iff {name : String} :
    name ∈ (ofPaths calls).entries.map (·.2) ↔ name ∈ calls.map (ofPaths calls).get := by
  rw [List.mem_map, List.mem_map]
  constructor
  · rintro ⟨⟨path, name⟩, hEntry, rfl⟩
    have hPath : path ∈ calls := @forall_ofPaths calls (fun path _ => path ∈ calls) (fun _ _ h => h) _ hEntry
    have hName : (ofPaths calls).get? path = some name :=
      (entryAt?_eq_some_iff (distinct_ofPaths calls).paths).mpr hEntry
    exact ⟨path, hPath, Option.some_inj.mp ((get?_of_mem hPath).symm.trans hName)⟩
  · rintro ⟨path, hPath, rfl⟩
    exact ⟨_, mem_of_entryAt? (get?_of_mem hPath), rfl⟩

theorem leastNumbered_fresh (names : LocalNames) (path : String) :
    LeastNumbered names.busy (moduleName (baseName path)) (names.fresh path) :=
  ⟨_, rfl, firstFree_not_mem (numbered_injective _) _, fun _ hLess => candidate_mem_of_lt_freeIndex hLess⟩

theorem get_add_of_not_mem (h : path ∉ calls) : ((ofPaths calls).add path).get path = (ofPaths calls).fresh path := by
  have hNew : (ofPaths calls).get? path = none := by
    refine entryAt?_eq_none_iff.mpr fun e hE hSame => h (hSame ▸ ?_)
    exact @forall_ofPaths calls (fun path _ => path ∈ calls) (fun _ _ h => h) _ hE
  have hEntry : entryAt? path (ofPaths calls).entries = none := hNew
  rw [add, hNew, get, get?, entryAt?_append, hEntry, Option.none_or, entryAt?, if_pos rfl, Option.getD_some]

end

/-- The calls before the first one for a path have taken the names that it cannot get. -/
theorem leastNumbered_of_asked {calls : List String} {front back : List (String × String)} {path name : String}
    (hLog : ({} : LocalNames).asked calls = front ++ (path, name) :: back) (hFirst : path ∉ front.map (·.1)) :
    LeastNumbered (front.map (·.2) ++ keywords ++ reservedModules) (moduleName (baseName path)) name := by
  have hCalls : calls = front.map (·.1) ++ path :: back.map (·.1) := by
    have hPaths := congrArg (List.map (·.1)) hLog
    rw [asked_eq, List.map_map, List.map_append, List.map_cons] at hPaths
    exact (List.map_id calls).symm.trans hPaths
  rw [hCalls, asked_append, asked] at hLog
  obtain ⟨hFront, hRest⟩ := List.append_inj hLog (by rw [asked_eq, List.length_map, List.length_map])
  have hName : name = (ofPaths (front.map (·.1))).fresh path := by
    rw [← get_add_of_not_mem hFirst]
    exact (Prod.mk.inj (List.cons.inj hRest).1).2.symm
  have hTaken : front.map (·.2) = (front.map (·.1)).map (ofPaths (front.map (·.1))).get := by
    rw [asked_eq] at hFront
    have hNames := congrArg (List.map (·.2)) hFront
    rw [List.map_map] at hNames
    exact hNames.symm
  have hSame : ∀ other, other ∈ (ofPaths (front.map (·.1))).busy ↔
      other ∈ front.map (·.2) ++ keywords ++ reservedModules := by
    intro other
    rw [busy, List.mem_append, List.mem_append, List.mem_append, List.mem_append, mem_names_iff, hTaken]
  obtain ⟨n, hForm, hFree, hLeast⟩ := leastNumbered_fresh (ofPaths (front.map (·.1))) path
  rw [hName]
  exact ⟨n, hForm, mt (hSame _).mpr hFree, fun m hLess => (hSame _).mp (hLeast m hLess)⟩

theorem fresh_apart (names : LocalNames) (path : String) :
    names.fresh path ∉ keywords ∧ names.fresh path ∉ reservedModules := by
  have hFree : names.fresh path ∉ names.busy := firstFree_not_mem (numbered_injective _) _
  rw [busy, List.append_assoc, List.mem_append, List.mem_append, not_or, not_or] at hFree
  exact hFree.2

section

variable {calls : List String} {path other : String}

theorem get_injective (h : path ∈ calls) (hOther : other ∈ calls)
    (hSame : (ofPaths calls).get path = (ofPaths calls).get other) : path = other := by
  have hEntry := mem_of_entryAt? (get?_of_mem h)
  have hOtherEntry := mem_of_entryAt? (get?_of_mem hOther)
  exact congrArg Prod.fst (List.inj_on_of_nodup_map (distinct_ofPaths calls).names hEntry hOtherEntry hSame)

theorem get_apart (h : path ∈ calls) :
    (ofPaths calls).get path ∉ keywords ∧ (ofPaths calls).get path ∉ reservedModules :=
  @forall_ofPaths calls (fun _ name => name ∉ keywords ∧ name ∉ reservedModules)
    (fun names path _ => fresh_apart names path) _ (mem_of_entryAt? (get?_of_mem h))

end

theorem mem_asked_iff {calls : List String} {e : String × String} :
    e ∈ ({} : LocalNames).asked calls ↔ e.1 ∈ calls ∧ e.2 = (ofPaths calls).get e.1 := by
  rw [asked_eq, List.mem_map]
  constructor
  · rintro ⟨path, hPath, rfl⟩
    exact ⟨hPath, rfl⟩
  · rintro ⟨hPath, hName⟩
    exact ⟨e.1, hPath, Prod.ext rfl hName.symm⟩

theorem answered (calls : List String) : Answered (({} : LocalNames).asked calls) := by
  constructor
  case same_iff =>
    intro first hFirst second hSecond
    rw [mem_asked_iff] at hFirst hSecond
    rw [hFirst.2, hSecond.2]
    exact ⟨get_injective hFirst.1 hSecond.1, congrArg _⟩
  case apart =>
    intro e hE
    obtain ⟨hPath, hName⟩ := mem_asked_iff.mp hE
    rw [hName]
    exact get_apart hPath
  case least => exact fun front path name back hLog hFirst => leastNumbered_of_asked hLog hFirst

/-! ### The items of packages -/

theorem bringsIn_packageUse (params : Parameters) (path : String) {name : String} (h : IsLocal name) :
    BringsIn (params.packageSegments path) name (params.packageUse path name) := by
  refine ⟨?_, broughtIn_packageUse params path h⟩
  unfold Parameters.packageUse
  dsimp only
  split
  · rename_i hLast
    exact .inl ⟨rfl, hLast⟩
  · exact .inr rfl

theorem broughtInOnce (params : Parameters) (calls : List String) :
    BroughtInOnce params (({} : LocalNames).asked calls)
      ((ofPaths calls).paths.map fun path => params.packageUse path ((ofPaths calls).get path)) := by
  have hLocal : ∀ path ∈ calls, IsLocal ((ofPaths calls).get path) := fun path hPath =>
    isLocal_of_mem (mem_toList_iff.mpr (get?_of_mem hPath))
  constructor
  · intro e hE
    obtain ⟨hPath, hName⟩ := mem_asked_iff.mp hE
    rw [hName]
    refine ⟨?_, bringsIn_packageUse params e.1 (hLocal e.1 hPath)⟩
    have hOnly : (ofPaths calls).paths.filter
        (fun path => broughtIn (params.packageUse path ((ofPaths calls).get path)) = (ofPaths calls).get e.1)
          = (ofPaths calls).paths.filter (· == e.1) := by
      refine List.filter_congr fun path hMem => ?_
      have hAsked := mem_paths_ofPaths.mp hMem
      rw [broughtIn_packageUse params path (hLocal path hAsked), beq_eq_decide, decide_eq_decide]
      exact ⟨get_injective hAsked hPath, congrArg _⟩
    have hNodup : (ofPaths calls).paths.Nodup := by
      refine (paths_ascending _).imp ?_
      rintro path _ hLess rfl
      exact String.lt_irrefl path hLess
    rw [List.filter_map, Function.comp_def, hOnly, List.filter_beq,
      List.count_eq_one_of_mem hNodup (mem_paths_ofPaths.mpr hPath)]
    rfl
  · intro item hItem
    obtain ⟨path, hPath, rfl⟩ := List.mem_map.mp hItem
    exact ⟨(path, _), mem_asked_iff.mpr ⟨mem_paths_ofPaths.mp hPath, rfl⟩, rfl⟩

/-- All calls for one package answer one name, which is its own and the least that was free at the first of them, and
the file brings the package in under that name, once. -/
theorem packages_bound (params : Parameters) (calls : List String) :
    Answered (({} : LocalNames).asked calls) ∧
      ∃ items, params.packageUses (ofPaths calls) = items.map code ∧
        BroughtInOnce params (({} : LocalNames).asked calls) items := by
  refine ⟨answered calls, _, ?_, broughtInOnce params calls⟩
  rw [packageUses_eq, List.map_map]
  rfl

example : (({} : LocalNames).asked ["a/std", "b/std1", "c/std", "a/std"]).map (·.2)
    = ["std1", "std11", "std2", "std1"] := by
  decide +kernel

end LocalNames

end ProtoBind.Emit
