import ProtoBind.Proofs.ModuleIdentifiers
import ProtoBind.Proofs.MovedStages
import ProtoBind.Proofs.PathParts

/-!
# Which package a file gets

A file gets the first import path that is available to it, and its package the first name. What others say of their
packages only matters to files with the same import path, so all import paths are there before the first name is chosen.
-/

set_option autoImplicit false

namespace ProtoBind

open Text Naming

/-! ### Package options -/

/-- The path and the text of the name that a package option gives: both around its first semicolon, or else the option
and its last element, or else the option as a name. -/
inductive PackageOption.Reads : String → Option String → Option String → Prop
  | nothing : Reads "" none none
  | halves {path name : String} (hPath : ';' ∉ path.toList) :
      Reads (path ++ ";" ++ name) (if path = "" then none else some path) (some name)
  | element {dir name : String} (hWhole : ';' ∉ (dir ++ "/" ++ name).toList) (hName : '/' ∉ name.toList) :
      Reads (dir ++ "/" ++ name) (some (dir ++ "/" ++ name)) (some name)
  | name {name : String} (hSome : name ≠ "") (hWhole : ';' ∉ name.toList) (hName : '/' ∉ name.toList) :
      Reads name none (some name)

namespace PackageOption

theorem ne_empty_of_toList_eq {text : String} {front back : List Char} {c : Char}
    (h : text.toList = front ++ c :: back) : text ≠ "" := by
  rintro rfl
  simp at h

theorem parse_halves {path name : String} (h : ';' ∉ path.toList) :
    (parse (path ++ ";" ++ name)).importPath = (if path = "" then none else some path) ∧
      optionText? (path ++ ";" ++ name) = some name := by
  have hList : (path ++ ";" ++ name).toList = path.toList ++ ';' :: name.toList := by simp
  have hSome : path ++ ";" ++ name ≠ "" := ne_empty_of_toList_eq hList
  constructor
  · rw [parse, hList, splitOnce_append h]
    by_cases hEmpty : path = "" <;> simp [hEmpty]
  · rw [optionText?, if_neg hSome, hList, splitOnce_append h]
    simp

theorem parse_element {dir name : String} (hWhole : ';' ∉ (dir ++ "/" ++ name).toList)
    (hName : '/' ∉ name.toList) :
    (parse (dir ++ "/" ++ name)).importPath = some (dir ++ "/" ++ name) ∧
      optionText? (dir ++ "/" ++ name) = some name := by
  have hList : (dir ++ "/" ++ name).toList = dir.toList ++ '/' :: name.toList := by simp
  have hSome : dir ++ "/" ++ name ≠ "" := ne_empty_of_toList_eq hList
  constructor
  · rw [parse, splitOnce_of_not_mem hWhole, hList, splitLast_append _ hName]
    simp
  · rw [optionText?, if_neg hSome, splitOnce_of_not_mem hWhole, hList, lastSegment_append _ hName, String.ofList_toList]

theorem parse_name {name : String} (hSome : name ≠ "") (hWhole : ';' ∉ name.toList)
    (hName : '/' ∉ name.toList) : (parse name).importPath = none ∧ optionText? name = some name := by
  constructor
  · rw [parse, splitOnce_of_not_mem hWhole, splitLast_of_not_mem hName]
    simp [hSome]
  · rw [optionText?, if_neg hSome, splitOnce_of_not_mem hWhole, lastSegment_of_not_mem hName, String.ofList_toList]

theorem exists_reads (option : String) : ∃ path name, Reads option path name := by
  by_cases hEmpty : option = ""
  · subst hEmpty
    exact ⟨_, _, .nothing⟩
  · by_cases hWhole : ';' ∈ option.toList
    · obtain ⟨path, name, hOption, hPath⟩ := List.eq_append_cons_of_mem hWhole
      have hHalves : option = String.ofList path ++ ";" ++ String.ofList name := by
        rw [← String.toList_inj, hOption]
        simp
      rw [hHalves]
      exact ⟨_, _, .halves (by rwa [String.toList_ofList])⟩
    · rcases path_cases option with hName | ⟨dir, name, rfl, hName⟩
      · exact ⟨_, _, .name hEmpty hWhole hName⟩
      · exact ⟨_, _, .element hWhole hName⟩

theorem Reads.parse {option : String} {path name : Option String} (h : Reads option path name) :
    (parse option).importPath = path ∧ optionText? option = name := by
  cases h with
  | nothing => exact ⟨rfl, rfl⟩
  | halves hPath => exact parse_halves hPath
  | element hWhole hName => exact parse_element hWhole hName
  | name hSome hWhole hName => exact parse_name hSome hWhole hName

theorem reads_parse (option : String) : Reads option (PackageOption.parse option).importPath (optionText? option) := by
  obtain ⟨path, name, h⟩ := exists_reads option
  obtain ⟨rfl, rfl⟩ := h.parse
  exact h

end PackageOption

/-! ### Choices -/

/-- The import paths that a file can get, from the one that counts most. -/
def FileNode.importPathChoices (params : Parameters) (file : FileNode) (optionPath : Option String) :
    List (Option String) :=
  [params.importMap.get? file.decl.name,
   if file.decl.name.startsWith "google/protobuf/" then some "router/wkt" else none,
   params.importPath.filter fun _ => file.generate,
   optionPath,
   some (dirName file.decl.name)]

/-- The texts that can name the package of a file, from the one that counts most. -/
def FileNode.nameChoices (params : Parameters) (file : FileNode) (own shared : Option String) : List (Option String) :=
  [own,
   shared,
   (params.importPath.filter fun path => file.generate ∧ baseName path ≠ "").map baseName,
   if file.decl.package ≠ "" then some file.decl.package else none,
   some (baseName file.decl.name)]

/-- The name in the package option of the first file that has a given import path and says one. -/
inductive SharedName (files : List FileNode) (importPath : String) : Option String → Prop
  | first {earlier later : List FileNode} {file : FileNode} {path : Option String} {name : String}
      (hFiles : files = earlier ++ file :: later) (hSame : file.importPath = importPath)
      (hOption : PackageOption.Reads file.decl.goPackage path (some name))
      (hEarlier : ∀ other ∈ earlier, other.importPath = importPath → other.decl.goPackage = "") :
      SharedName files importPath (some name)
  | none (hNone : ∀ other ∈ files, other.importPath = importPath → other.decl.goPackage = "") :
      SharedName files importPath none

/-- A file with its import path and the name of its package, the first ones that it can get, and otherwise as before. -/
structure Packaged (params : Parameters) (files : List FileNode) (before after : FileNode)
    (path own shared : Option String) : Prop where
  reads : PackageOption.Reads before.decl.goPackage path own
  sharing : SharedName files after.importPath shared
  importPath : (before.importPathChoices params path).findSome? id = some after.importPath
  name : ((before.nameChoices params own shared).findSome? id).map moduleName = some after.packageName
  rest : after = { before with importPath := after.importPath, packageName := after.packageName }

theorem findSome?_importPathChoices (params : Parameters) (file : FileNode) :
    (file.importPathChoices params file.packageOption.importPath).findSome? id
        = some (file.chooseImportPath params) := by
  rw [FileNode.chooseImportPath, FileNode.importPathChoices, wellKnownDirectory, wellKnownImportPath]
  cases params.importMap.get? file.decl.name with
  | some path => rfl
  | none =>
    by_cases hKnown : file.decl.name.startsWith "google/protobuf/" = true
    · simp [hKnown]
    · cases params.importPath <;> cases file.generate <;> cases file.packageOption.importPath <;> simp [hKnown]

theorem findSome?_nameChoices (params : Parameters) (files : List FileNode) (file : FileNode) :
    (file.nameChoices params (optionText? file.decl.goPackage) (files.findSome? fun other =>
        if other.importPath = file.importPath then optionText? other.decl.goPackage else none)).findSome? id
      = some (file.packageText params files) := by
  rw [FileNode.packageText, FileNode.nameChoices]
  cases optionText? file.decl.goPackage with
  | some text => rfl
  | none =>
    cases files.findSome? fun other =>
        if other.importPath = file.importPath then optionText? other.decl.goPackage else none with
    | some text => rfl
    | none =>
      cases params.importPath with
      | none => by_cases hPackage : file.decl.package = "" <;> simp [hPackage]
      | some path =>
        by_cases hBase : baseName path = "" <;> by_cases hPackage : file.decl.package = "" <;>
          cases file.generate <;> simp [hBase, hPackage, Option.filter_some]

theorem optionText?_eq_none_iff {option : String} : optionText? option = none ↔ option = "" := by
  unfold optionText?
  split
  · rename_i hEmpty
    exact iff_of_true rfl hEmpty
  · rename_i hSome
    refine iff_of_false ?_ hSome
    split <;> exact Option.some_ne_none _

theorem sharedName_findSome? (files : List FileNode) (importPath : String) :
    SharedName files importPath (files.findSome? fun other =>
      if other.importPath = importPath then optionText? other.decl.goPackage else none) := by
  have hSilent : ∀ {other : FileNode},
      (if other.importPath = importPath then optionText? other.decl.goPackage else none) = none →
      other.importPath = importPath → other.decl.goPackage = "" := by
    intro other hNone hSame
    rw [if_pos hSame] at hNone
    exact optionText?_eq_none_iff.mp hNone
  cases hFound : files.findSome? fun other =>
      if other.importPath = importPath then optionText? other.decl.goPackage else none with
  | none => exact .none fun other hOther => hSilent (List.findSome?_eq_none_iff.mp hFound other hOther)
  | some name =>
    obtain ⟨earlier, file, later, hFiles, hName, hEarlier⟩ := List.findSome?_eq_some_iff.mp hFound
    split at hName
    · rename_i hSame
      exact .first hFiles hSame (hName ▸ PackageOption.reads_parse file.decl.goPackage)
        fun other hOther => hSilent (hEarlier other hOther)
    · cases hName

theorem packaged_withPackages (g : Graph) (params : Parameters) :
    List.Forall₂ (fun before after => ∃ path own shared,
      Packaged params (g.withPackages params).files before after path own shared) g.files
      (g.withPackages params).files := by
  rw [Graph.withPackages]
  dsimp only
  generalize hLocated : (g.files.map fun file => { file with importPath := file.chooseImportPath params }) = located
  rw [← hLocated, List.map_map, List.forall₂_map_right_iff, List.forall₂_same, ← List.map_map, hLocated]
  intro before _
  refine ⟨_, _, _, PackageOption.reads_parse _, sharedName_findSome? _ _, findSome?_importPathChoices params before, ?_,
    rfl⟩
  have hName := findSome?_nameChoices params
    (located.map fun file => { file with packageName := file.choosePackageName params located })
    { before with
      importPath := before.chooseImportPath params
      packageName := ({ before with importPath := before.chooseImportPath params } : FileNode).choosePackageName params
        located }
  rw [packageText_map params located { before with importPath := before.chooseImportPath params }
    fun file => file.choosePackageName params located] at hName
  refine (congrArg (Option.map moduleName) hName).trans ?_
  exact congrArg some (choosePackageName_eq params located _).symm

/-! ### Agreement -/

def SamePackage (a b : FileNode) : Prop := a.importPath = b.importPath ∧ a.packageName = b.packageName

/-- The error for a file with another package than the first one. The import paths come first. -/
inductive Differs (first other : FileNode) : Error → Prop
  | importPaths (hPaths : first.importPath ≠ other.importPath) :
      Differs first other (.inconsistentImportPaths first.importPath other.importPath)
  | packageNames (hPaths : first.importPath = other.importPath) (hNames : first.packageName ≠ other.packageName) :
      Differs first other (.inconsistentPackageNames first.packageName other.packageName)

/-- The error for the first file with another package than the one in front. -/
def FirstDiffers (files : List FileNode) (e : Error) : Prop :=
  ∃ first same other rest, files = first :: same ++ other :: rest ∧ (∀ file ∈ same, SamePackage first file) ∧
    Differs first other e

namespace Graph

theorem inconsistency?_eq_none_iff {first other : FileNode} :
    inconsistency? first other = none ↔ SamePackage first other := by
  unfold inconsistency? SamePackage
  split
  · simp_all
  · split <;> simp_all

theorem inconsistency?_eq_some_iff {first other : FileNode} {e : Error} :
    inconsistency? first other = some e ↔ Differs first other e := by
  unfold inconsistency?
  constructor
  · intro h
    split at h
    · rename_i hPaths
      cases h
      exact .importPaths hPaths
    · rename_i hPaths
      split at h
      · rename_i hNames
        cases h
        exact .packageNames (not_not.mp hPaths) hNames
      · cases h
  · rintro (hPaths | ⟨hPaths, hNames⟩)
    · exact if_pos hPaths
    · rw [if_neg (not_not.mpr hPaths), if_pos hNames]

theorem failure?_checkConsistency (g : Graph) : failure? g.checkConsistency =
    g.generated.head?.bind fun first => g.generated.tail.findSome? (inconsistency? first) := by
  unfold checkConsistency
  cases g.generated with
  | nil => rfl
  | cons first rest =>
    rw [List.head?_cons, List.tail_cons, Option.bind_some]
    dsimp only
    cases rest.findSome? (inconsistency? first) <;> rfl

theorem checkConsistency_error_iff {g : Graph} {e : Error} :
    g.checkConsistency = .error e ↔ FirstDiffers g.generated e := by
  rw [← failure?_eq_some_iff, failure?_checkConsistency]
  cases g.generated with
  | nil => exact ⟨nofun, fun ⟨_, _, _, _, hFiles, _⟩ => nomatch hFiles⟩
  | cons first rest =>
    rw [List.head?_cons, List.tail_cons, Option.bind_some, List.findSome?_eq_some_iff]
    simp only [inconsistency?_eq_none_iff, inconsistency?_eq_some_iff]
    constructor
    · rintro ⟨same, other, later, hRest, hDiffers, hSame⟩
      exact ⟨first, same, other, later, by rw [hRest, List.cons_append], hSame, hDiffers⟩
    · rintro ⟨_, same, other, later, hFiles, hSame, hDiffers⟩
      obtain ⟨rfl, hRest⟩ := List.cons.inj hFiles
      exact ⟨same, other, later, hRest, hDiffers, hSame⟩

theorem checkConsistency_ok_iff {g : Graph} :
    g.checkConsistency = .ok () ↔ ∀ a ∈ g.generated, ∀ b ∈ g.generated, SamePackage a b := by
  have hOk : g.checkConsistency = .ok () ↔ failure? g.checkConsistency = none := by
    cases g.checkConsistency <;> simp [failure?]
  rw [hOk, failure?_checkConsistency]
  cases g.generated with
  | nil => exact iff_of_true rfl fun a hA => absurd hA List.not_mem_nil
  | cons first rest =>
    rw [List.head?_cons, List.tail_cons, Option.bind_some, List.findSome?_eq_none_iff]
    simp only [inconsistency?_eq_none_iff]
    constructor
    · intro h
      have hFirst : ∀ a ∈ first :: rest, SamePackage first a := List.forall_mem_cons.mpr ⟨⟨rfl, rfl⟩, h⟩
      intro a hA b hB
      exact ⟨(hFirst a hA).1.symm.trans (hFirst b hB).1, (hFirst a hA).2.symm.trans (hFirst b hB).2⟩
    · intro h other hOther
      exact h first List.mem_cons_self other (List.mem_cons_of_mem _ hOther)

/-! ### The passes over the files -/

def locate (params : Parameters) (g : Graph) (place : Nat) : Graph :=
  g.modifyFile place fun file => { file with importPath := file.chooseImportPath params }

/-- Gives the package of the file at a place its name, with the names that package options give by import path. -/
def nameWith (params : Parameters) (names : Table String) (g : Graph) (place : Nat) : Graph :=
  g.modifyFile place fun file =>
    { file with packageName :=
        match file.packageOption.name with
        | some name => name
        | none =>
          match names.get? file.importPath with
          | some name => name
          | none =>
            match params.defaultName?.filter fun _ => file.generate with
            | some name => name
            | none =>
              if file.decl.package ≠ "" then moduleName file.decl.package else moduleName (baseName file.decl.name) }

/-- Enters what the option of a file says, unless its import path has an entry. -/
def enterName (names : Table String) (file : FileNode) : Table String :=
  match file.packageOption.name with
  | none => names
  | some name => if (names.get? file.importPath).isSome then names else names.insert file.importPath name

/-- One pass for the import paths, one for the names in options, and one for the names of packages. -/
def resolveInTurn (g : Graph) (params : Parameters) : Graph :=
  let located := (List.range g.files.length).foldl (locate params) g
  let names := located.files.foldl enterName .empty
  (List.range g.files.length).foldl (nameWith params names) located

/-- A pass over the places behind some files changes the files there. -/
theorem foldl_modifyFile_append (f : FileNode → FileNode) (toGenerate : List Nat) (done rest : List FileNode) :
    (List.range' done.length rest.length).foldl (fun (g : Graph) place => g.modifyFile place f)
      ⟨done ++ rest, toGenerate⟩ = ⟨done ++ rest.map f, toGenerate⟩ := by
  induction rest generalizing done with
  | nil => rfl
  | cons file rest ih =>
    have hNext := ih (done ++ [f file])
    rw [List.length_append, List.length_singleton, List.append_assoc, List.append_assoc, List.singleton_append,
      List.singleton_append] at hNext
    rw [List.length_cons, List.range'_succ, List.foldl_cons, modifyFile, modify_length_append, hNext, List.map_cons]

/-- A pass over all places changes all files. -/
theorem foldl_modifyFile (g : Graph) (f : FileNode → FileNode) :
    (List.range g.files.length).foldl (fun g place => g.modifyFile place f) g = { g with files := g.files.map f } := by
  rw [List.range_eq_range']
  exact foldl_modifyFile_append f g.toGenerate [] g.files

theorem get?_enterName (names : Table String) (file : FileNode) (importPath : String) :
    (enterName names file).get? importPath
      = (names.get? importPath).or (if file.importPath = importPath then file.packageOption.name else none) := by
  unfold enterName
  cases file.packageOption.name with
  | none => rw [ite_self, Option.or_none]
  | some name =>
    dsimp only
    by_cases hSame : file.importPath = importPath
    · subst hSame
      cases hEntry : names.get? file.importPath with
      | none => simp [Table.get?_insert]
      | some other => simp [hEntry]
    · rw [if_neg hSame, Option.or_none]
      split
      · rfl
      · rw [Table.get?_insert, if_neg (Ne.symm hSame)]

/-- The first name that is entered for an import path stays. -/
theorem get?_foldl_enterName (files : List FileNode) (names : Table String) (importPath : String) :
    (files.foldl enterName names).get? importPath = (names.get? importPath).or (optionNameOf? files importPath) := by
  induction files generalizing names with
  | nil => exact (Option.or_none).symm
  | cons file rest ih =>
    rw [List.foldl_cons, ih, get?_enterName, Option.or_assoc, optionNameOf?, optionNameOf?, List.findSome?_cons]
    cases (if file.importPath = importPath then file.packageOption.name else none) <;> rfl

theorem resolveInTurn_eq (g : Graph) (params : Parameters) : g.resolveInTurn params = g.withPackages params := by
  have hLocated : (List.range g.files.length).foldl (locate params) g
      = { g with files := g.files.map fun file => { file with importPath := file.chooseImportPath params } } :=
    foldl_modifyFile g _
  rw [resolveInTurn, withPackages, hLocated]
  generalize hFiles : (g.files.map fun file => { file with importPath := file.chooseImportPath params }) = located
  have hLength : g.files.length = located.length := by rw [← hFiles, List.length_map]
  rw [hLength]
  refine (foldl_modifyFile ⟨located, g.toGenerate⟩ _).trans ?_
  dsimp only
  congr 2
  funext file
  rw [FileNode.choosePackageName, get?_foldl_enterName, Table.get?_empty, Option.none_or]
  cases file.packageOption.name with
  | some name => rfl
  | none => cases optionNameOf? located file.importPath with
    | some name => rfl
    | none => cases params.defaultName? <;> cases file.generate <;> rfl

/-- The import path and the package name of a file are the first ones that it can get, and nothing else changes. The
files to generate agree in both, or the first one that does not ends the run. -/
theorem resolvePackages_precedence (g : Graph) (params : Parameters) : ∃ last : Graph,
    last = g.resolveInTurn params ∧ last.toGenerate = g.toGenerate ∧
    List.Forall₂ (fun before after => ∃ path own shared, Packaged params last.files before after path own shared)
      g.files last.files ∧
    (∀ k, g.resolvePackages params = .ok k ↔
      k = last ∧ ∀ a ∈ last.generated, ∀ b ∈ last.generated, SamePackage a b) ∧
    ∀ e, g.resolvePackages params = .error e ↔ FirstDiffers last.generated e := by
  refine ⟨g.withPackages params, (resolveInTurn_eq g params).symm, rfl, packaged_withPackages g params, ?_, ?_⟩
  · intro k
    rw [resolvePackages_ok_iff, checkConsistency_ok_iff, and_comm]
  · intro e
    rw [← checkConsistency_error_iff, resolvePackages]
    cases (g.withPackages params).checkConsistency <;> simp

end Graph

end ProtoBind
