import ProtoBind.Proofs.NameForms

/-!
# Items that bring names in

The name that a `use` item brings in stands in front of its semicolon. The local name of a package is in
small letters and none of the reserved ones, so the item of a package is never mistaken for another one,
and there is one for each package that was mentioned, in the order of the import paths.
-/

set_option autoImplicit false

namespace ProtoBind

open Naming Emit Text Source

/-! ### Names in front of a semicolon -/

def broughtIn (item : String) : String :=
  String.ofList (item.toList.reverse.tail.takeWhile isNameChar).reverse

theorem broughtIn_eq {front name : String} (hFront : ∀ c ∈ front.toList.getLast?, isNameChar c = false)
    (hName : ∀ c ∈ name.toList, isNameChar c = true) : broughtIn (front ++ name ++ ";") = name := by
  have hReverse : (front ++ name ++ ";").toList.reverse.tail = name.toList.reverse ++ front.toList.reverse := by
    simp [String.toList_append]
  have hRest : front.toList.reverse.takeWhile isNameChar = [] := by
    cases hLast : front.toList.reverse with
    | nil => rfl
    | cons c cs =>
      refine List.takeWhile_cons_of_neg ?_
      rw [hFront c (by rw [← List.head?_reverse, hLast]; rfl)]
      exact Bool.false_ne_true
  rw [broughtIn, hReverse, List.takeWhile_append_of_pos fun c hMem => hName c (List.mem_reverse.mp hMem),
    hRest, List.append_nil, List.reverse_reverse, String.ofList_toList]

theorem getLast?_append_of_ne_nil {front back : String} {c : Char} (h : back.toList.getLast? = some c) :
    (front ++ back).toList.getLast? = some c := by
  rw [String.toList_append, List.getLast?_append, h]
  rfl

/-- A path brings its last segment in. -/
theorem broughtIn_path {segments : List String} {name : String} (hLast : segments.getLast? = some name)
    (hName : ∀ c ∈ name.toList, isNameChar c = true) :
    broughtIn ("use " ++ "::".intercalate segments ++ ";") = name := by
  obtain ⟨front, rfl⟩ := List.getLast?_eq_some_iff.mp hLast
  by_cases hFront : front = []
  · subst hFront
    rw [List.nil_append, String.intercalate_singleton]
    refine broughtIn_eq ?_ hName
    intro c hC
    cases hC
    rfl
  · rw [intercalate_concat _ _ hFront, ← String.append_assoc]
    refine broughtIn_eq ?_ hName
    intro c hC
    rw [← String.append_assoc, getLast?_append_of_ne_nil (c := ':') rfl] at hC
    cases hC
    rfl

theorem broughtIn_alias {path name : String} (hName : ∀ c ∈ name.toList, isNameChar c = true) :
    broughtIn ("use " ++ path ++ " as " ++ name ++ ";") = name := by
  refine broughtIn_eq ?_ hName
  intro c hC
  rw [getLast?_append_of_ne_nil (c := ' ') rfl] at hC
  cases hC
  rfl

/-! ### Items of packages -/

/-- A name that packages can have: in small letters and not reserved. -/
structure IsLocal (name : String) : Prop where
  nonempty : name ≠ ""
  chars : ∀ c ∈ name.toList, isNameChar c = true
  small : ∀ c ∈ name.toList, c.isUpper = false
  free : name ∉ reservedModules

theorem not_isLocal_of_mem {name : String} (h : name ∈ reservedModules) : ¬ IsLocal name :=
  fun hLocal => hLocal.free h

theorem not_isLocal_of_isUpper {name : String} {c : Char} (hMem : c ∈ name.toList) (hUpper : c.isUpper = true) :
    ¬ IsLocal name := by
  intro hLocal
  rw [hLocal.small c hMem] at hUpper
  cases hUpper

theorem isUpper_moduleChar (c : Char) : (moduleChar c).isUpper = false := by
  rw [← Bool.not_eq_true, isUpper_iff]
  unfold moduleChar
  split
  · rename_i h
    rw [Bool.or_eq_true, Bool.or_eq_true, isLower_iff, isDigit_iff, beq_iff_eq] at h
    rcases h with (hLower | hDigit) | rfl
    · omega
    · omega
    · decide
  split
  · rename_i hUpper
    rw [isUpper_iff] at hUpper
    rw [toNat_toLower, if_pos hUpper]
    omega
  · decide

theorem isUpper_moduleName {name : String} {c : Char} (h : c ∈ (moduleName name).toList) :
    c.isUpper = false := by
  have hPadded : ∀ c ∈ padStart (name.toList.map moduleChar), c.isUpper = false := by
    have hChars : ∀ c ∈ name.toList.map moduleChar, c.isUpper = false := by
      intro c hC
      obtain ⟨d, -, rfl⟩ := List.mem_map.mp hC
      exact isUpper_moduleChar d
    generalize name.toList.map moduleChar = cs at hChars ⊢
    cases cs with
    | nil => exact forall_mem_of_all (by decide)
    | cons d ds =>
      rw [padStart]
      split
      · exact List.forall_mem_cons.mpr ⟨rfl, hChars⟩
      · exact hChars
  unfold moduleName at h
  dsimp only at h
  split at h
  · rw [String.toList_append, String.toList_ofList, List.mem_append] at h
    have hUnderscore : ∀ c ∈ "_".toList, c.isUpper = false := forall_mem_of_all (by decide)
    exact h.elim (hPadded c) (hUnderscore c)
  · rw [String.toList_ofList] at h
    exact hPadded c h

theorem isLocal_fresh (names : LocalNames) (importPath : String) : IsLocal (names.fresh importPath) := by
  have hFree : names.fresh importPath ∉ names.busy := firstFree_not_mem (numbered_injective _) names.busy
  obtain ⟨n, hName⟩ : ∃ n, names.fresh importPath = numbered (moduleName (baseName importPath)) n := ⟨_, rfl⟩
  have hSchema := isSchemaName_numbered (isSchemaName_moduleName (baseName importPath)) n
  rw [hName, LocalNames.busy, List.mem_append, not_or] at hFree
  rw [hName]
  constructor
  case nonempty => exact ne_empty_of_isSchemaName hSchema
  case chars => exact fun c => isNameChar_of_mem hSchema
  case small =>
    intro c hC
    have hBase : ∀ c ∈ (moduleName (baseName importPath)).toList, c.isUpper = false :=
      fun c => isUpper_moduleName
    cases n with
    | zero =>
      rw [numbered] at hC
      exact hBase c hC
    | succ n =>
      rw [numbered, String.toList_append, List.mem_append] at hC
      refine hC.elim (hBase c) fun hDigit => ?_
      have hDigits := (Bool.and_eq_true_iff.mp (isNumber_toString (n + 1))).2
      have hRange := isDigit_iff.mp (List.all_eq_true.mp hDigits c hDigit)
      rw [← Bool.not_eq_true, isUpper_iff]
      omega
  case free => exact hFree.2

theorem broughtIn_packageUse (params : Parameters) (importPath : String) {name : String} (h : IsLocal name) :
    broughtIn (params.packageUse importPath name) = name := by
  unfold Parameters.packageUse
  dsimp only
  split
  · rename_i hLast
    exact broughtIn_path hLast h.chars
  · exact broughtIn_alias h.chars

/-- The router stands behind the root of the crate. -/
theorem getLast?_routerSegments (params : Parameters) : params.routerSegments.getLast? = some "router" := by
  have hText : (params.repo ++ "/router").toList = params.repo.toList ++ '/' :: "router".toList := by
    rw [String.toList_append]
    rfl
  have hLast : splitOn '/' "router".toList = ["router".toList] := splitOn_of_not_mem (by decide)
  have hRouter : moduleName "router" = "router" := by decide +kernel
  rw [Parameters.routerSegments, moduleSegments, hText, splitOn_append_sep, hLast, List.map_append,
    List.filter_append, List.mapIdx_append]
  simp [hRouter]

theorem Emit.code_injective : Function.Injective code := fun _ _ h => (Line.code.inj h).2

namespace Emit.LocalNames

/-- The import paths of the packages with a local name, in their order. -/
def paths (names : LocalNames) : List String := names.toList.map (·.1)

theorem paths_ascending (names : LocalNames) : names.paths.Pairwise (· < ·) := by
  rw [paths, List.pairwise_map]
  exact (Table.ofList names.entries).ascending

variable {importPaths : List String}

theorem mem_toList_iff {importPath name : String} :
    (importPath, name) ∈ (ofPaths importPaths).toList ↔ (ofPaths importPaths).get? importPath = some name := by
  rw [toList, ← Table.get?_eq_some_iff, Table.get?_ofList (distinct_ofPaths importPaths).paths]
  rfl

theorem mem_paths_ofPaths {importPath : String} :
    importPath ∈ (ofPaths importPaths).paths ↔ importPath ∈ importPaths := by
  constructor
  · intro h
    obtain ⟨⟨path, name⟩, hMem, rfl⟩ := List.mem_map.mp h
    have hEntry := mem_of_entryAt? (mem_toList_iff.mp hMem)
    exact @forall_ofPaths importPaths (fun path _ => path ∈ importPaths) (fun _ _ h => h) _ hEntry
  · intro h
    obtain ⟨name, hName⟩ := exists_get?_ofPaths h
    exact List.mem_map.mpr ⟨(importPath, name), mem_toList_iff.mpr hName, rfl⟩

/-- There is one item for each package that was mentioned, in the order of the import paths. -/
theorem packageUses_eq (params : Parameters) (importPaths : List String) :
    params.packageUses (ofPaths importPaths) = (ofPaths importPaths).paths.map fun path =>
      code (params.packageUse path ((ofPaths importPaths).get path)) := by
  rw [Parameters.packageUses, paths, List.map_map]
  refine List.map_congr_left ?_
  rintro ⟨path, name⟩ hMem
  rw [Function.comp_apply, get, mem_toList_iff.mp hMem, Option.getD_some]

theorem isLocal_of_mem {importPath name : String} (h : (importPath, name) ∈ (ofPaths importPaths).toList) :
    IsLocal name :=
  @forall_ofPaths importPaths (fun _ name => IsLocal name) (fun names path _ => isLocal_fresh names path) _
    (mem_of_entryAt? (mem_toList_iff.mp h))

/-- Each package has an item of its own. -/
theorem nodup_packageUses (params : Parameters) (importPaths : List String) :
    (params.packageUses (ofPaths importPaths)).Nodup := by
  have hEntries : (ofPaths importPaths).toList.Nodup := by
    refine (Table.ofList (ofPaths importPaths).entries).ascending.imp ?_
    exact fun h hSame => absurd (hSame ▸ h) (String.lt_irrefl _)
  refine hEntries.map_on ?_
  rintro ⟨path, name⟩ hFirst ⟨other, otherName⟩ hSecond hSame
  have hNames : name = otherName := by
    rw [← broughtIn_packageUse params path (isLocal_of_mem hFirst),
      ← broughtIn_packageUse params other (isLocal_of_mem hSecond)]
    exact congrArg broughtIn (Line.code.inj hSame).2
  exact List.inj_on_of_nodup_map (distinct_ofPaths importPaths).names (mem_of_entryAt? (mem_toList_iff.mp hFirst))
    (mem_of_entryAt? (mem_toList_iff.mp hSecond)) hNames

/-- An item that brings in something else is that of no package. -/
theorem not_mem_packageUses (params : Parameters) {item : String} (h : ¬ IsLocal (broughtIn item)) :
    code item ∉ params.packageUses (ofPaths importPaths) := by
  intro hMem
  obtain ⟨⟨path, name⟩, hEntry, hSame⟩ := List.mem_map.mp hMem
  have hLocal := isLocal_of_mem hEntry
  cases hSame
  rw [broughtIn_packageUse params path hLocal] at h
  exact h hLocal

/-! ### Items beside those of packages -/

variable {items : List String} (params : Parameters) (hOther : ∀ item ∈ items, ¬ IsLocal (broughtIn item))

theorem mem_uses_iff {item : String} (hItem : ¬ IsLocal (broughtIn item)) :
    code item ∈ items.map code ++ params.packageUses (ofPaths importPaths) ↔ item ∈ items := by
  rw [List.mem_append, List.mem_map_of_injective code_injective]
  exact or_iff_left (not_mem_packageUses params hItem)

include hOther in
theorem nodup_uses (importPaths : List String) (hItems : items.Nodup) :
    (items.map code ++ params.packageUses (ofPaths importPaths)).Nodup := by
  refine List.Nodup.append ?_ (nodup_packageUses params importPaths) ?_
  · exact hItems.map code_injective
  · intro line hLine hPackage
    obtain ⟨item, hItem, rfl⟩ := List.mem_map.mp hLine
    exact not_mem_packageUses params (hOther item hItem) hPackage

end Emit.LocalNames

end ProtoBind
