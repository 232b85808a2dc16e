import ProtoBind.Proofs.GivenNames
import ProtoBind.Proofs.UseItems

/-!
# Identifiers of modules

Packages, the segments of module paths and local names all come of one conversion. What it gives has the form of
an identifier and stays as it is when it is converted again; it is the single underscore, which is no name, exactly
where at most one character comes in and that is no letter and no digit.
-/

set_option autoImplicit false

namespace ProtoBind

namespace Naming

open Text

/-! ### Conversion -/

/-- A word with the form of a module's name: small letters, digits and underscores, no digit in front, no keyword. -/
structure IsModuleWord (name : String) : Prop where
  chars : ∀ c ∈ name.toList, c.isLower = true ∨ c.isDigit = true ∨ c = '_'
  start : ∃ c cs, name.toList = c :: cs ∧ c.isDigit = false
  free : name ∉ keywords

def IsModuleIdentifier (name : String) : Prop := IsModuleWord name ∧ name ≠ "_"

/-- A text of at most one character, which is no letter and no digit. -/
def IsSymbolOrEmpty (text : String) : Prop := text.toList.length ≤ 1 ∧ ∀ c ∈ text.toList, c.isAlphanum = false

theorem IsModuleWord.identifier_iff {name : String} (h : IsModuleWord name) :
    IsModuleIdentifier name ↔ name ≠ "_" := and_iff_right h

theorem isModuleWord_of_isSchemaName {name : String} (h : isSchemaName name = true)
    (hSmall : ∀ c ∈ name.toList, c.isUpper = false) (hFree : name ∉ keywords) : IsModuleWord name := by
  obtain ⟨⟨c, cs, hList, hDigit⟩, hChars⟩ := isSchemaName_iff.mp h
  refine ⟨?_, ⟨c, cs, hList, by simpa using hDigit⟩, hFree⟩
  intro d hD
  have hName := hChars d hD
  have hAlphanum : d.isAlphanum = (d.isUpper || d.isLower || d.isDigit) := rfl
  rw [isNameChar, Bool.or_eq_true, beq_iff_eq, hAlphanum, hSmall d hD, Bool.false_or, Bool.or_eq_true,
      or_assoc] at hName
  exact hName

theorem isModuleWord_moduleName (text : String) : IsModuleWord (moduleName text) :=
  isModuleWord_of_isSchemaName (isSchemaName_moduleName text) (fun _ => isUpper_moduleName)
    (moduleName_not_mem_keywords text)

theorem moduleChar_eq_underscore_iff {c : Char} : moduleChar c = '_' ↔ c.isAlphanum = false := by
  have hUnderscore : '_'.toNat = 95 := rfl
  rw [← Bool.not_eq_true, isAlphanum_iff, eq_iff_toNat, moduleChar]
  simp only [Bool.or_eq_true, isLower_iff, isDigit_iff, isUpper_iff, beq_iff_eq, eq_iff_toNat]
  split
  · omega
  · split
    · rw [toNat_toLower]
      split <;> omega
    · omega

/-- A word with the form of a module's name stays as it is. -/
theorem moduleName_of_isModuleWord {name : String} (h : IsModuleWord name) : moduleName name = name := by
  obtain ⟨c, cs, hList, hDigit⟩ := h.start
  have hKept : ∀ d ∈ name.toList, moduleChar d = d := by
    intro d hD
    refine if_pos ?_
    simpa [or_assoc] using h.chars d hD
  have hPadded : String.ofList (padStart (name.toList.map moduleChar)) = name := by
    rw [List.map_congr_left hKept, List.map_id', hList, padStart, hDigit, if_neg Bool.false_ne_true, ← hList,
      String.ofList_toList]
  rw [moduleName, hPadded]
  exact if_neg fun hKeyword => h.free (List.elem_iff.mp hKeyword)

theorem padStart_eq_underscore_iff {cs : List Char} :
    padStart (cs.map moduleChar) = ['_'] ↔ cs.length ≤ 1 ∧ ∀ c ∈ cs, c.isAlphanum = false := by
  cases cs with
  | nil => exact iff_of_true rfl ⟨Nat.zero_le 1, fun c hC => absurd hC List.not_mem_nil⟩
  | cons c cs =>
    rw [List.map_cons, padStart]
    split
    · rename_i hDigit
      refine iff_of_false (by simp) fun h => ?_
      rw [moduleChar_eq_underscore_iff.mpr (h.2 c List.mem_cons_self)] at hDigit
      cases hDigit
    · rw [List.cons.injEq, moduleChar_eq_underscore_iff, List.map_eq_nil_iff, List.length_cons, List.forall_mem_cons]
      constructor
      · rintro ⟨hChar, rfl⟩
        exact ⟨Nat.le_refl 1, hChar, fun d hD => absurd hD List.not_mem_nil⟩
      · rintro ⟨hLength, hChar, -⟩
        exact ⟨hChar, List.eq_nil_of_length_eq_zero (by omega)⟩

theorem moduleName_eq_underscore_iff {text : String} : moduleName text = "_" ↔ IsSymbolOrEmpty text := by
  rw [IsSymbolOrEmpty, ← padStart_eq_underscore_iff, moduleName]
  generalize padStart (text.toList.map moduleChar) = padded
  constructor
  · intro h
    split at h
    · rename_i hKeyword
      rw [String.append_eq_right_iff.mp h] at hKeyword
      cases hKeyword
    · rw [← String.toList_ofList (l := padded), h]
      rfl
  · rintro rfl
    rfl

theorem isModuleIdentifier_moduleName_iff {text : String} :
    IsModuleIdentifier (moduleName text) ↔ ¬ IsSymbolOrEmpty text :=
  (isModuleWord_moduleName text).identifier_iff.trans (not_congr moduleName_eq_underscore_iff)

/-! ### Module paths -/

/-- The elements of a slash-separated path that its module path has segments for. -/
def pathParts (path : String) : List String :=
  ((splitOn '/' path.toList).map String.ofList).filter fun s => s ≠ "" ∧ s ≠ "."

/-- A segment is the root of a path, which only stands in front, or a part of the path under the name of a module. -/
def SegmentOf (path : String) (i : Nat) (segment : String) : Prop :=
  (i = 0 ∧ segment ∈ pathRoots) ∨ ∃ part, (pathParts path)[i]? = some part ∧ segment = moduleName part ∧
    IsModuleWord segment ∧ (IsModuleIdentifier segment ↔ ¬ IsSymbolOrEmpty part)

theorem segmentOf_moduleSegments {path : String} {i : Nat} {segment : String}
    (h : (moduleSegments path)[i]? = some segment) : SegmentOf path i segment := by
  have hMapped : moduleSegments path = (pathParts path).mapIdx fun i part =>
      if i = 0 ∧ part ∈ pathRoots then part else moduleName part := rfl
  rw [hMapped, List.getElem?_mapIdx] at h
  obtain ⟨part, hPart, rfl⟩ := Option.map_eq_some_iff.mp h
  by_cases hRoot : i = 0 ∧ part ∈ pathRoots
  · rw [if_pos hRoot]
    exact .inl hRoot
  · rw [if_neg hRoot]
    exact .inr ⟨part, hPart, rfl, isModuleWord_moduleName part, isModuleIdentifier_moduleName_iff⟩

end Naming

/-! ### Packages -/

open Naming Text Emit

def optionText? (option : String) : Option String :=
  if option = "" then none
  else match splitOnce ';' option.toList with
    | some (_, name) => some (String.ofList name)
    | none => some (String.ofList (lastSegment option.toList))

theorem name_parse (option : String) : (PackageOption.parse option).name = (optionText? option).map moduleName := by
  rw [PackageOption.parse, optionText?]
  by_cases hEmpty : option = ""
  · subst hEmpty
    rfl
  · rw [if_neg hEmpty, if_neg (mt String.toList_eq_nil_iff.mp hEmpty)]
    cases splitOnce ';' option.toList with
    | some halves => rfl
    | none =>
      rw [lastSegment]
      cases splitLast '/' option.toList with
      | some halves => rfl
      | none => exact congrArg (some ∘ moduleName) String.ofList_toList.symm

/-- The text that the package name of a file comes of, among files that have their import paths. -/
def FileNode.packageText (params : Parameters) (files : List FileNode) (file : FileNode) : String :=
  match optionText? file.decl.goPackage with
  | some text => text
  | none =>
    match files.findSome? fun other =>
        if other.importPath = file.importPath then optionText? other.decl.goPackage else none with
    | some text => text
    | none =>
      match params.importPath.filter fun path => baseName path ≠ "", file.generate with
      | some path, true => baseName path
      | _, _ => if file.decl.package ≠ "" then file.decl.package else baseName file.decl.name

theorem optionNameOf?_eq (files : List FileNode) (importPath : String) : optionNameOf? files importPath =
    (files.findSome? fun other =>
      if other.importPath = importPath then optionText? other.decl.goPackage else none).map moduleName := by
  rw [List.map_findSome?, optionNameOf?]
  congr 1
  funext other
  rw [Function.comp_apply, apply_ite (Option.map moduleName), FileNode.packageOption, name_parse, Option.map_none]

theorem defaultName?_eq (params : Parameters) : params.defaultName? =
    (params.importPath.filter fun path => baseName path ≠ "").map fun path => moduleName (baseName path) := by
  rw [Parameters.defaultName?]
  cases params.importPath with
  | none => rfl
  | some path =>
    by_cases hEmpty : baseName path = "" <;> simp [Option.filter_some, hEmpty]

theorem choosePackageName_eq (params : Parameters) (files : List FileNode) (file : FileNode) :
    file.choosePackageName params files = moduleName (file.packageText params files) := by
  rw [FileNode.choosePackageName, FileNode.packageText, FileNode.packageOption, name_parse, optionNameOf?_eq,
    defaultName?_eq]
  cases optionText? file.decl.goPackage with
  | some text => rfl
  | none =>
    cases files.findSome? fun other =>
        if other.importPath = file.importPath then optionText? other.decl.goPackage else none with
    | some text => rfl
    | none =>
      cases params.importPath.filter fun path => baseName path ≠ "" with
      | some path => cases file.generate with
        | true => rfl
        | false => exact (apply_ite moduleName _ _ _).symm
      | none => exact (apply_ite moduleName _ _ _).symm

/-- The package of a file: a word with the form of a module's name, and one that can be it unless a mere symbol, or
nothing, names the package. -/
def PackageNamed (params : Parameters) (files : List FileNode) (file : FileNode) : Prop :=
  file.packageName = moduleName (file.packageText params files) ∧ IsModuleWord file.packageName ∧
    (IsModuleIdentifier file.packageName ↔ ¬ IsSymbolOrEmpty (file.packageText params files))

/-- The text does not depend on the package names of the files. -/
theorem packageText_map (params : Parameters) (files : List FileNode) (file : FileNode) (name : FileNode → String) :
    ({ file with packageName := name file } : FileNode).packageText params
        (files.map fun other => { other with packageName := name other }) = file.packageText params files := by
  rw [FileNode.packageText, FileNode.packageText, List.findSome?_map]
  rfl

theorem packageNamed_withPackages (g : Graph) (params : Parameters) :
    ∀ file ∈ (g.withPackages params).files, PackageNamed params (g.withPackages params).files file := by
  rw [Graph.withPackages]
  dsimp only
  generalize (g.files.map fun file => { file with importPath := file.chooseImportPath params }) = files
  intro file hFile
  obtain ⟨located, -, rfl⟩ := List.mem_map.mp hFile
  rw [PackageNamed, packageText_map params files located fun file => file.choosePackageName params files]
  dsimp only
  rw [choosePackageName_eq]
  exact ⟨rfl, isModuleWord_moduleName _, isModuleIdentifier_moduleName_iff⟩

namespace Emit

/-! ### Local names -/

/-- A name that a package can have as its local name: with the form of a module's name. -/
theorem isModuleWord_fresh (names : LocalNames) (importPath : String) : IsModuleWord (names.fresh importPath) := by
  have hLocal := isLocal_fresh names importPath
  have hFree : names.fresh importPath ∉ names.busy := firstFree_not_mem (numbered_injective _) names.busy
  have hSchema : isSchemaName (names.fresh importPath) = true :=
    isSchemaName_numbered (isSchemaName_moduleName (baseName importPath)) _
  rw [LocalNames.busy, List.append_assoc, List.mem_append, List.mem_append, not_or, not_or] at hFree
  exact isModuleWord_of_isSchemaName hSchema hLocal.small hFree.2.1

theorem isSymbolOrEmpty_of_fresh {names : LocalNames} {importPath : String} (h : names.fresh importPath = "_") :
    IsSymbolOrEmpty (baseName importPath) :=
  moduleName_eq_underscore_iff.mp (numbered_eq_underscore (ne_empty_of_isSchemaName (isSchemaName_moduleName _)) h)

/-- The first package without a letter or digit in its name takes the single underscore. -/
theorem underscore_mem_of_fresh {names : LocalNames} {importPath : String} (h : IsSymbolOrEmpty (baseName importPath)) :
    "_" ∈ names.entries.map (·.2) ++ [names.fresh importPath] := by
  rw [List.mem_append, List.mem_singleton]
  by_cases hBusy : "_" ∈ names.busy
  · rw [LocalNames.busy, List.append_assoc, List.mem_append] at hBusy
    exact .inl (hBusy.resolve_right (by decide))
  · right
    have hZero : freeIndex names.busy (numbered "_") = 0 := by
      by_contra hIndex
      exact hBusy (candidate_mem_of_lt_freeIndex (Nat.pos_of_ne_zero hIndex))
    rw [LocalNames.fresh, moduleName_eq_underscore_iff.mpr h, firstFree, hZero]
    rfl

theorem underscore_mem_ofPaths (importPaths : List String) : ∀ e ∈ (LocalNames.ofPaths importPaths).entries,
    IsSymbolOrEmpty (baseName e.1) → "_" ∈ (LocalNames.ofPaths importPaths).entries.map (·.2) := by
  refine List.foldlRecOn (motive := fun names : LocalNames => ∀ e ∈ names.entries, IsSymbolOrEmpty (baseName e.1) →
    "_" ∈ names.entries.map (·.2)) importPaths LocalNames.add (fun e hE => absurd hE List.not_mem_nil) ?_
  intro names ih importPath _
  rw [LocalNames.add]
  split
  · exact ih
  · intro e hE hSymbol
    rw [List.map_append]
    rcases List.mem_append.mp hE with hOld | hNew
    · exact List.mem_append_left _ (ih e hOld hSymbol)
    · rw [List.mem_singleton.mp hNew] at hSymbol
      exact underscore_mem_of_fresh hSymbol

/-- The local names of packages: words with the form of a module's name, one of them the single underscore exactly if a
path ends in a mere symbol or in nothing. -/
structure LocalsNamed (importPaths : List String) (names : List String) : Prop where
  words : ∀ name ∈ names, IsModuleWord name ∧ (IsModuleIdentifier name ↔ name ≠ "_")
  underscore : "_" ∈ names ↔ ∃ path ∈ importPaths, IsSymbolOrEmpty (baseName path)

theorem localsNamed_ofPaths (importPaths : List String) :
    LocalsNamed importPaths ((LocalNames.ofPaths importPaths).entries.map (·.2)) := by
  have hEach := @LocalNames.forall_ofPaths importPaths
    (fun path name => IsModuleWord name ∧ (name = "_" → path ∈ importPaths ∧ IsSymbolOrEmpty (baseName path)))
    fun names path hPath => ⟨isModuleWord_fresh names path, fun hUnderscore =>
        ⟨hPath, isSymbolOrEmpty_of_fresh hUnderscore⟩⟩
  constructor
  · intro name hName
    obtain ⟨e, hE, rfl⟩ := List.mem_map.mp hName
    exact ⟨(hEach e hE).1, (hEach e hE).1.identifier_iff⟩
  · constructor
    · intro hUnderscore
      obtain ⟨e, hE, hName⟩ := List.mem_map.mp hUnderscore
      exact ⟨e.1, (hEach e hE).2 hName⟩
    · rintro ⟨path, hPath, hSymbol⟩
      obtain ⟨name, hName⟩ := LocalNames.exists_get?_ofPaths hPath
      exact underscore_mem_ofPaths importPaths (path, name) (mem_of_entryAt? hName) hSymbol

end Emit

/-- Names of modules have the form of identifiers and stay as they are, be they packages, segments of paths or local
names. They are the single underscore exactly where they come of a mere symbol or of nothing. -/
theorem module_identifiers (text path : String) (g : Graph) (params : Parameters) (importPaths : List String) :
    (IsModuleWord (moduleName text) ∧ moduleName (moduleName text) = moduleName text ∧
      (IsModuleIdentifier (moduleName text) ↔ ¬ IsSymbolOrEmpty text)) ∧
    (∀ file ∈ (g.withPackages params).files, PackageNamed params (g.withPackages params).files file) ∧
    (∀ i segment, (moduleSegments path)[i]? = some segment → SegmentOf path i segment) ∧
    LocalsNamed importPaths ((LocalNames.ofPaths importPaths).entries.map (·.2)) := by
  have hWord := isModuleWord_moduleName text
  exact ⟨⟨hWord, moduleName_of_isModuleWord hWord, isModuleIdentifier_moduleName_iff⟩,
    packageNamed_withPackages g params, fun _ _ => segmentOf_moduleSegments, localsNamed_ofPaths importPaths⟩

def rootFile : FileNode where
  decl := { name := "-.proto" }
  generate := true
  messages := []
  enums := []

/-- A package that is no identifier, under a local name that is none. -/
theorem module_identifiers_rootFile : ∃ file ∈ (Graph.withPackages ⟨[rootFile], [0]⟩ {}).files,
    file.importPath = "." ∧ ¬ IsModuleIdentifier file.packageName ∧
      ∃ name ∈ (LocalNames.ofPaths [file.importPath]).entries.map (·.2), ¬ IsModuleIdentifier name := by
  obtain ⟨file, hFile, hPath, hText⟩ : ∃ file ∈ (Graph.withPackages ⟨[rootFile], [0]⟩ {}).files,
      file.importPath = "." ∧ file.packageText {} (Graph.withPackages ⟨[rootFile], [0]⟩ {}).files = "-" :=
    ⟨_, List.mem_cons_self, by decide +kernel, by decide +kernel⟩
  obtain ⟨-, hPackages, -, hLocals⟩ := module_identifiers "-" "-" ⟨[rootFile], [0]⟩ {} ["."]
  have hSymbol : IsSymbolOrEmpty "-" := ⟨Nat.le_refl 1, List.forall_mem_singleton.mpr rfl⟩
  have hDot : IsSymbolOrEmpty (baseName ".") := ⟨Nat.le_refl 1, List.forall_mem_singleton.mpr (by decide)⟩
  refine ⟨file, hFile, hPath, ?_, "_", ?_, fun h => h.2 rfl⟩
  · rw [(hPackages file hFile).2.2, hText]
    exact fun h => h hSymbol
  · rw [hPath]
    exact hLocals.underscore.mpr ⟨".", List.mem_singleton_self _, hDot⟩

end ProtoBind
