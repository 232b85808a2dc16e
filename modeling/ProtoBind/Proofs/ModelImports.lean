import ProtoBind.Proofs.KeptReferences
import ProtoBind.Proofs.ModelTexts

/-!
# What a model brings in

The items at the top of a model are there for what its body prints: the packages of the types and of the
aliases in it, serialization, maps. The test for default values is defined where it is referred to.
-/

set_option autoImplicit false

namespace ProtoBind

open Naming Text

namespace Emit

def serdeUse : String := "use serde::\x7bDeserialize, Serialize\x7d;"

def mapUse : String := "use std::collections::HashMap;"

def mapText (names : LocalNames) (name : String) (key value : Element) : String :=
  "pub " ++ fieldIdentifier name ++ ": HashMap<" ++ key.text names ++ ", " ++ value.text names ++ ">,"

namespace ModelFile

variable {scope : Scope} {model : ModelFile}

/-- Whether the body of a model prints the path or an alias of a symbol. -/
def Prints (scope : Scope) (model : ModelFile) (s : Symbol) : Prop :=
  (∃ r ∈ model.references, r.symbol = s ∧ Shows model.body (r.text model.names)) ∨
    s ∈ scope.file.imported ∧ ∃ name ∈ scope.graph.exportedNames s,
      aliasText model.names (scope.graph.importPathOf s.file) name ∈ codeTexts model.body

/-- What a model brings in fits its body. The items are some fixed ones and one for each of some packages,
the packages are those of the symbols that the body prints, and the fixed items and the test for default
values are there for what the body holds. -/
structure ImportsFit (params : Parameters) (scope : Scope) (model : ModelFile) (fixed paths : List String) :
    Prop where
  lines : model.lines params = header model.file ++ model.uses params ++ [.blank] ++ model.body
  block : model.uses params = fixed.map code ++ paths.map fun path =>
    code (params.packageUse path (model.names.get path))
  fixed : fixed.Sublist [serdeUse, mapUse]
  once : (model.uses params).Nodup
  ascending : paths.Pairwise (· < ·)
  packages : ∀ path, path ∈ paths ↔ path ≠ scope.file.importPath ∧
    ∃ s, scope.graph.importPathOf s.file = path ∧ model.Prints scope s
  names : ∀ other : LocalNames, (∀ path ∈ paths, other.get path = model.names.get path) →
    { model with names := other }.body = model.body
  serde : code serdeUse ∈ model.uses params ↔ ∃ text ∈ codeTexts model.body, Begins "#[derive(" text
  maps : code mapUse ∈ model.uses params ↔ ∃ field key value, .plain field ∈ model.fields ∧
    field.shape = .map key value ∧
    mapText model.names field.name key value ∈ codeTexts model.body
  test : code testHead ∈ model.body ↔ ∃ wireName, skipAttribute wireName ∈ codeTexts model.body

/-! ### Fixed items -/

def fixedUses (model : ModelFile) : List String :=
  (if model.usesSerialization then [serdeUse] else []) ++ (if model.usesMaps then [mapUse] else [])

theorem fixedUses_sublist (model : ModelFile) : model.fixedUses.Sublist [serdeUse, mapUse] := by
  unfold fixedUses
  split <;> split <;> decide

theorem uses_eq (params : Parameters) (model : ModelFile) :
    model.uses params = model.fixedUses.map code ++ params.packageUses model.names := by
  unfold uses fixedUses
  split <;> split <;> rfl

theorem not_isLocal_serdeUse : ¬ IsLocal (broughtIn serdeUse) := by
  have hNothing : broughtIn serdeUse = "" := by decide
  rw [hNothing]
  exact fun h => h.nonempty rfl

theorem not_isLocal_mapUse : ¬ IsLocal (broughtIn mapUse) := by
  have hName : broughtIn mapUse = "HashMap" := by decide
  rw [hName]
  exact @not_isLocal_of_isUpper _ 'H' (by decide) rfl

theorem exists_names (h : ofScope scope = .ok model) : ∃ importPaths, model.names = .ofPaths importPaths := by
  unfold ofScope at h
  split at h
  · cases h
  · cases h
    exact ⟨_, rfl⟩

variable (params : Parameters) (h : ofScope scope = .ok model)
include h

theorem nodup_uses : (model.uses params).Nodup := by
  obtain ⟨importPaths, hNames⟩ := exists_names h
  rw [uses_eq, hNames]
  refine LocalNames.nodup_uses params ?_ importPaths ?_
  · intro item hItem
    have hEither := (fixedUses_sublist model).subset hItem
    rw [List.mem_pair] at hEither
    rcases hEither with rfl | rfl
    · exact not_isLocal_serdeUse
    · exact not_isLocal_mapUse
  · exact (by decide : [serdeUse, mapUse].Nodup).sublist (fixedUses_sublist model)

theorem mem_serdeUse : code serdeUse ∈ model.uses params ↔ model.usesSerialization = true := by
  obtain ⟨importPaths, hNames⟩ := exists_names h
  rw [uses_eq, hNames, LocalNames.mem_uses_iff params not_isLocal_serdeUse, fixedUses]
  cases model.usesSerialization <;> cases model.usesMaps <;> decide

theorem mem_mapUse : code mapUse ∈ model.uses params ↔ model.usesMaps = true := by
  obtain ⟨importPaths, hNames⟩ := exists_names h
  rw [uses_eq, hNames, LocalNames.mem_uses_iff params not_isLocal_mapUse, fixedUses]
  cases model.usesSerialization <;> cases model.usesMaps <;> decide

omit h

/-! ### What the body holds -/

theorem aliasTexts_subset : codeTexts model.aliasLines ⊆ codeTexts model.body := by
  intro text hText
  simp only [body, codeTexts_append, List.mem_append]
  exact .inl (.inl (.inl hText))

theorem structTexts_subset {s : Struct} (hS : s ∈ model.structs) :
    codeTexts (s.lines model.names) ⊆ codeTexts model.body := by
  intro text hText
  simp only [body, codeTexts_append, codeTexts_flatMap, List.mem_append, List.mem_flatMap]
  exact .inl (.inr ⟨s, hS, hText⟩)

theorem fieldTexts_subset {field : Field} (hField : field ∈ model.fields) :
    codeTexts (field.lines model.names) ⊆ codeTexts model.body := by
  obtain ⟨s, hS, hMem⟩ := List.mem_flatMap.mp hField
  exact fun text hText => structTexts_subset hS (Struct.fieldTexts_subset hMem hText)

theorem Shape.isMap_iff {shape : Shape} : shape.isMap = true ↔ ∃ key value, shape = .map key value := by
  cases shape <;> simp [Shape.isMap]

theorem exists_derive_iff :
    (∃ text ∈ codeTexts model.body, Begins "#[derive(" text) ↔ model.usesSerialization = true := by
  rw [usesSerialization, Bool.or_eq_true, Bool.not_eq_true', Bool.not_eq_true',
    List.isEmpty_eq_false_iff_exists_mem, List.isEmpty_eq_false_iff_exists_mem]
  constructor
  · rintro ⟨text, hText, hDerive⟩
    by_contra hNone
    push Not at hNone
    have hEnums : model.enums = [] := List.eq_nil_iff_forall_not_mem.mpr hNone.1
    have hStructs : model.structs = [] := List.eq_nil_iff_forall_not_mem.mpr hNone.2
    have hAlias : text ∈ codeTexts model.aliasLines := by
      simpa [body, usesDefaultTest, fields, hEnums, hStructs] using hText
    exact (begins_aliasLines text hAlias).not_of_apart (by decide) (by decide) hDerive
  · have hSelf : Begins "#[derive(" "#[derive(" := List.prefix_refl _
    rintro (⟨e, hE⟩ | ⟨s, hS⟩)
    · refine ⟨"#[derive(Clone, Copy, Debug, Default, PartialEq, Eq, Hash, PartialOrd, Ord, "
        ++ "Serialize, Deserialize)]", ?_, by decide⟩
      simp only [body, codeTexts_append, codeTexts_flatMap, List.mem_append, List.mem_flatMap]
      refine .inl (.inl (.inr ⟨e, hE, ?_⟩))
      simp [enumLines]
    · refine ⟨"#[derive(Clone, Debug, Default, PartialEq, Serialize, Deserialize)]", structTexts_subset hS ?_,
        by decide⟩
      simp [Struct.lines]

theorem mapText_mem_lines (names : LocalNames) {field : PlainField} {key value : Element}
    (h : field.shape = .map key value) : mapText names field.name key value ∈ codeTexts (field.lines names) := by
  have hHead : ": HashMap<" = ": " ++ "HashMap<" := by decide
  have hTail : ">," = ">" ++ "," := by decide
  have hText : mapText names field.name key value
      = "pub " ++ fieldIdentifier field.name ++ ": " ++ field.shape.text names ++ "," := by
    rw [mapText, h, Shape.text, hHead, hTail]
    simp only [String.append_assoc]
  simp [PlainField.lines, hText]

theorem usesMaps_iff : model.usesMaps = true ↔ ∃ field key value, .plain field ∈ model.fields ∧
    field.shape = .map key value ∧
    mapText model.names field.name key value ∈ codeTexts model.body := by
  rw [usesMaps, List.any_eq_true]
  constructor
  · rintro ⟨field, hField, hMap⟩
    cases field with
    | oneof field => cases hMap
    | plain field =>
      obtain ⟨key, value, hShape⟩ := Shape.isMap_iff.mp hMap
      exact ⟨field, key, value, hField, hShape, fieldTexts_subset hField (mapText_mem_lines model.names hShape)⟩
  · rintro ⟨field, key, value, hField, hShape, -⟩
    exact ⟨_, hField, Shape.isMap_iff.mpr ⟨key, value, hShape⟩⟩

theorem defines_test_iff :
    code testHead ∈ model.body ↔ ∃ wireName, skipAttribute wireName ∈ codeTexts model.body := by
  constructor
  · intro h
    obtain ⟨field, hField, hOmits⟩ := List.any_eq_true.mp (usesDefaultTest_of_defines h)
    cases field with
    | oneof field => cases hOmits
    | plain field =>
      refine ⟨field.wireName, fieldTexts_subset hField ?_⟩
      have hAttribute : field.serdeAttribute = skipAttribute field.wireName := if_pos hOmits
      simp [Field.lines, PlainField.lines, hAttribute]
  · rintro ⟨wireName, h⟩
    rw [body, if_pos (usesDefaultTest_of_skips h)]
    exact List.mem_append_right _ List.mem_cons_self

/-- The local names of other packages than those introduced do not stand in the body. -/
theorem body_congr {other : LocalNames}
    (hAliases : ∀ a ∈ model.aliases, other.get a.importPath = model.names.get a.importPath)
    (hReferences : Agree model.names other model.references) :
    { model with names := other }.body = model.body := by
  have hAliasLines : { model with names := other }.aliasLines = model.aliasLines := by
    unfold aliasLines
    have hItems : (model.aliases.flatMap fun a => a.names.map fun name =>
          code ("pub use " ++ other.get a.importPath ++ "::" ++ name ++ ";"))
        = model.aliases.flatMap fun a => a.names.map fun name =>
          code ("pub use " ++ model.names.get a.importPath ++ "::" ++ name ++ ";") :=
      List.flatMap_congr fun a hA => by rw [hAliases a hA]
    dsimp only
    rw [hItems]
  have hStructs :
      model.structs.flatMap (Struct.lines other) = model.structs.flatMap (Struct.lines model.names) :=
    List.flatMap_congr fun s hS => Struct.lines_congr (hReferences.of_mem hS)
  unfold body
  rw [hAliasLines, hStructs]
  rfl

/-! ### Packages -/

variable (h : ofScope scope = .ok model)
include h

/-- A package is introduced just where the body prints something of it. -/
theorem mem_paths_iff {path : String} : path ∈ model.names.paths ↔ path ≠ scope.file.importPath ∧
    ∃ s, scope.graph.importPathOf s.file = path ∧ model.Prints scope s := by
  rw [mem_paths h]
  constructor
  · rintro (⟨a, hA, rfl⟩ | ⟨r, hR, hPackage⟩)
    · rw [aliases_eq h] at hA
      obtain ⟨s, hS, hOther, hSome, rfl⟩ := Scope.mem_aliases.mp hA
      obtain ⟨name, hName⟩ := List.exists_mem_of_ne_nil _ hSome
      refine ⟨hOther, s, rfl, .inr ⟨hS, name, hName, aliasTexts_subset ?_⟩⟩
      rw [mem_aliasTexts, aliases_eq h]
      exact ⟨_, hA, name, hName, rfl⟩
    · rw [refers h hR, mem_packages_referTo] at hPackage
      obtain ⟨s, hStruct, hMem⟩ := List.mem_flatMap.mp hR
      obtain ⟨text, hText, hPart⟩ := Struct.shows hMem
      exact ⟨hPackage.2, r.symbol, hPackage.1, .inl ⟨r, hR, rfl, text, structTexts_subset hStruct hText, hPart⟩⟩
  · rintro ⟨hOther, s, rfl, ⟨r, hR, rfl, -⟩ | ⟨hS, name, hName, -⟩⟩
    · refine .inr ⟨r, hR, ?_⟩
      rw [refers h hR, mem_packages_referTo]
      exact ⟨rfl, hOther⟩
    · refine .inl ⟨⟨scope.graph.importPathOf s.file, scope.graph.exportedNames s⟩, ?_, rfl⟩
      rw [aliases_eq h]
      exact Scope.mem_aliases.mpr ⟨s, hS, hOther, List.ne_nil_of_mem hName, rfl⟩

theorem importsFit : model.ImportsFit params scope model.fixedUses model.names.paths := by
  obtain ⟨importPaths, hNames⟩ := exists_names h
  constructor
  case lines => rfl
  case block => rw [uses_eq, hNames, LocalNames.packageUses_eq]
  case fixed => exact fixedUses_sublist model
  case once => exact nodup_uses params h
  case ascending => exact model.names.paths_ascending
  case packages => exact fun path => mem_paths_iff h
  case names =>
    intro other hOther
    refine body_congr ?_ ?_
    · exact fun a hA => hOther _ ((mem_paths h).mpr (.inl ⟨a, hA, rfl⟩))
    · exact fun r hR path hPath => hOther _ ((mem_paths h).mpr (.inr ⟨r, hR, hPath⟩))
  case serde => rw [mem_serdeUse params h, exists_derive_iff]
  case maps => rw [mem_mapUse params h, usesMaps_iff]
  case test => exact defines_test_iff

end ModelFile

end Emit

end ProtoBind
