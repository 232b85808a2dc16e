import Mathlib.Algebra.Group.End
import ProtoBind.Proofs.MovedStages
import ProtoBind.Proofs.RenumberedText

/-!
# The order of the files of a request

What is emitted for the files to generate, and the manifest of their services, do not depend on the order
in which the files of a request come.
-/

set_option autoImplicit false

namespace ProtoBind

/-! ### Permutations of places -/

/-- The permutation that keeps the first place and permutes the others. -/
def keepFirst (ρ : Equiv.Perm Nat) : Equiv.Perm Nat where
  toFun
    | 0 => 0
    | n + 1 => ρ n + 1
  invFun
    | 0 => 0
    | n + 1 => ρ.symm n + 1
  left_inv n := by cases n <;> simp
  right_inv n := by cases n <;> simp

theorem exists_renumbering {α : Type} {as bs : List α} (h : as.Perm bs) :
    ∃ ρ : Equiv.Perm Nat, ∀ place, bs[ρ place]? = as[place]? := by
  induction h with
  | nil => exact ⟨Equiv.refl Nat, fun _ => rfl⟩
  | @cons a as bs _ ih =>
    obtain ⟨ρ, hSame⟩ := ih
    refine ⟨keepFirst ρ, fun place => ?_⟩
    cases place with
    | zero => rfl
    | succ place => exact hSame place
  | swap a b as =>
    refine ⟨Equiv.swap 0 1, fun place => ?_⟩
    match place with
    | 0 => rfl
    | 1 => rfl
    | place + 2 => rw [Equiv.swap_apply_of_ne_of_ne (by omega) (by omega)]; rfl
  | trans _ _ ihFirst ihSecond =>
    obtain ⟨ρ, hFirst⟩ := ihFirst
    obtain ⟨σ, hSecond⟩ := ihSecond
    exact ⟨ρ.trans σ, fun place => (hSecond (ρ place)).trans (hFirst place)⟩

theorem findSome?_perm {α β : Type} {f : α → Option β} {as bs : List α} (h : as.Perm bs)
    (hAgree : ∀ a ∈ as, ∀ b ∈ as, ∀ x y, f a = some x → f b = some y → x = y) :
    as.findSome? f = bs.findSome? f := by
  cases hFirst : as.findSome? f with
  | none =>
    rw [List.findSome?_eq_none_iff] at hFirst
    exact (List.findSome?_eq_none_iff.mpr fun b hB => hFirst b (h.mem_iff.mpr hB)).symm
  | some x =>
    obtain ⟨a, hA, hX⟩ := List.exists_of_findSome?_eq_some hFirst
    cases hSecond : bs.findSome? f with
    | none =>
      rw [List.findSome?_eq_none_iff] at hSecond
      rw [hSecond a (h.mem_iff.mp hA)] at hX
      cases hX
    | some y =>
      obtain ⟨b, hB, hY⟩ := List.exists_of_findSome?_eq_some hSecond
      rw [hAgree a hA b (h.mem_iff.mpr hB) x y hX hY]

/-! ### Packages -/

/-- No two files of one import path give their packages different names in their options. -/
def OptionsAgree (files : List FileDecl) (names : List String) (params : Parameters) : Prop :=
  ∀ a ∈ files, ∀ b ∈ files, (a.located names params).importPath = (b.located names params).importPath →
    ∀ x y, (a.located names params).packageOption.name = some x →
      (b.located names params).packageOption.name = some y → x = y

theorem packaged_perm {files others : List FileDecl} {names : List String} {params : Parameters}
    (hPerm : files.Perm others) (hAgree : OptionsAgree files names params) :
    FileDecl.packaged names params others = FileDecl.packaged names params files := by
  have hOption : ∀ importPath, optionNameOf? (others.map (FileDecl.located names params)) importPath
      = optionNameOf? (files.map (FileDecl.located names params)) importPath := by
    intro importPath
    refine (findSome?_perm (hPerm.map _) ?_).symm
    intro _ hFirst _ hSecond x y hX hY
    obtain ⟨a, hA, rfl⟩ := List.mem_map.mp hFirst
    obtain ⟨b, hB, rfl⟩ := List.mem_map.mp hSecond
    split at hX
    · split at hY
      · rename_i hPath hOther
        exact hAgree a hA b hB (hPath.trans hOther.symm) x y hX hY
      · cases hY
    · cases hX
  funext file
  unfold FileDecl.packaged FileNode.choosePackageName
  simp only [hOption]

/-! ### Graphs -/

namespace Graph

theorem fileByName?_eq_none_iff {g : Graph} {name : String} :
    g.fileByName? name = none ↔ ∀ file ∈ g.files, file.decl.name ≠ name := by
  rw [fileByName?, List.getLast?_eq_none_iff, List.filter_eq_nil_iff]
  simp only [List.mem_range, file?, Option.any_eq_true, beq_iff_eq, not_exists, not_and]
  constructor
  · intro h file hFile
    obtain ⟨place, hPlace⟩ := List.mem_iff_getElem?.mp hFile
    exact h place (List.getElem?_eq_some_iff.mp hPlace).1 file hPlace
  · intro h place _ file hFile
    exact h file (List.mem_of_getElem? hFile)

/-- Where names are different, they lead to the same files wherever these stand. -/
theorem fileByName?_renumber {g k : Graph} {ρ : Equiv.Perm Nat}
    (hFiles : ∀ place, k.file? (ρ place) = g.file? place) (hNodup : (k.decls.map (·.name)).Nodup)
    (name : String) : k.fileByName? name = (g.fileByName? name).map ρ := by
  cases hPlace : g.fileByName? name with
  | none =>
    rw [fileByName?_eq_none_iff] at hPlace
    rw [Option.map_none, fileByName?_eq_none_iff]
    intro file hFile
    obtain ⟨place, hOther⟩ := List.mem_iff_getElem?.mp hFile
    have hSame := hFiles (ρ.symm place)
    rw [Equiv.apply_symm_apply] at hSame
    exact hPlace file (List.mem_of_getElem? (hSame.symm.trans hOther))
  | some place =>
    obtain ⟨file, hFile, hName⟩ := file?_of_fileByName? hPlace
    have hMoved : k.file? (ρ place) = some file := (hFiles place).trans hFile
    cases hOther : k.fileByName? name with
    | none =>
      rw [fileByName?_eq_none_iff] at hOther
      exact absurd hName (hOther file (List.mem_of_getElem? hMoved))
    | some other =>
      obtain ⟨found, hFound, hFoundName⟩ := file?_of_fileByName? hOther
      have hFirst := congrArg (Option.map FileDecl.name) (decl_of_file? hMoved)
      have hSecond := congrArg (Option.map FileDecl.name) (decl_of_file? hFound)
      rw [← List.getElem?_map] at hFirst hSecond
      have hBound := (List.getElem?_eq_some_iff.mp hFirst).1
      have hSame := (List.getElem?_inj hBound hNodup).mp
        (hFirst.trans ((congrArg some (hName.trans hFoundName.symm)).trans hSecond.symm))
      rw [Option.map_some, hSame]

theorem decls_resolved (files : List FileDecl) (names : List String) (params : Parameters) :
    (resolved files names params).decls = files := by
  rw [decls, files_resolved, List.map_map]
  exact List.map_id' files

theorem toGenerate_resolved (files : List FileDecl) (names : List String) (params : Parameters) :
    (resolved files names params).toGenerate
      = names.filterMap (resolved files names params).fileByName? := by
  have hDecls : (⟨files.map (FileDecl.node names), []⟩ : Graph).decls
      = (resolved files names params).decls := by
    rw [decls_resolved, decls, List.map_map]
    exact List.map_id' files
  rw [← fileByName?_congr hDecls]
  rfl

theorem generated_renumber {g k : Graph} {ρ : Nat → Nat}
    (hFiles : ∀ place, k.file? (ρ place) = g.file? place) (hPlaces : k.toGenerate = g.toGenerate.map ρ) :
    k.generated = g.generated := by
  rw [generated, hPlaces, List.filterMap_map, generated]
  congr 1
  funext place
  exact hFiles place

theorem moved_withConstants {g k : Graph} {ρ : Nat → Nat} (hInjective : Function.Injective ρ)
    (hFiles : ∀ place, k.file? (ρ place) = g.file? place)
    (hImported : ∀ file ∈ g.files, file.imported = []) : Moved ρ g.withConstants k.withConstants := by
  refine ⟨hInjective, fun place => ?_⟩
  have hSame := hFiles place
  rw [file?, file?] at hSame ⊢
  rw [withConstants, withConstants, List.getElem?_map, List.getElem?_map, hSame]
  cases hFile : g.files[place]? with
  | none => exact .none
  | some file =>
    refine .some ⟨rfl, rfl, rfl, ?_, rfl, rfl⟩
    change file.imported = file.imported.map (Symbol.renumber ρ)
    rw [hImported file (List.mem_of_getElem? hFile)]
    rfl

/-- Files in another order are prepared like the files themselves. -/
theorem prepare_perm {files others : List FileDecl} {names : List String} {params : Parameters}
    (hPerm : files.Perm others) (hNodup : (files.map (·.name)).Nodup)
    (hAgree : OptionsAgree files names params) {g : Graph} {index : NameIndex}
    (h : prepare files names params = .ok (g, index)) :
    ∃ (ρ : Nat → Nat) (k : Graph) (other : NameIndex), prepare others names params = .ok (k, other) ∧
      Moved ρ g k ∧ (∀ name, Alike (fun a b => b = a.renumber ρ) (index.get name) (other.get name)) ∧
      k.toGenerate = g.toGenerate.map ρ := by
  obtain ⟨hNames, hPresent, hConsistent, hIndex, hExport⟩ := prepare_ok_iff.mp h
  -- The order of the files renumbers their places, and each stage is carried along that renumbering.
  obtain ⟨ρ, hSame⟩ := exists_renumbering hPerm
  have hFiles : ∀ place, (resolved others names params).file? (ρ place)
      = (resolved files names params).file? place := by
    intro place
    rw [file?, file?, files_resolved, files_resolved, packaged_perm hPerm hAgree, List.getElem?_map,
      List.getElem?_map, hSame]
  have hOtherNodup : ((resolved others names params).decls.map (·.name)).Nodup := by
    rw [decls_resolved]
    exact (hPerm.map _).nodup_iff.mp hNodup
  have hByName := fileByName?_renumber hFiles hOtherNodup
  have hPlaces : (resolved others names params).toGenerate
      = (resolved files names params).toGenerate.map ρ := by
    rw [toGenerate_resolved, toGenerate_resolved, List.map_filterMap]
    congr 1
    funext name
    exact hByName name
  have hOtherConsistent : (resolved others names params).checkConsistency = .ok () := by
    rw [← hConsistent, checkConsistency, generated_renumber hFiles hPlaces, checkConsistency]
  have hMoved := moved_withConstants ρ.injective hFiles imported_resolved
  obtain ⟨other, hOther, hGet⟩ := hMoved.index ρ.surjective hIndex
  have hConstantNames : ∀ name, (resolved others names params).withConstants.fileByName? name
      = ((resolved files names params).withConstants.fileByName? name).map ρ := by
    intro name
    rw [← fileByName?_congr (sameFiles_withConstants _).decls,
      ← fileByName?_congr (sameFiles_withConstants _).decls]
    exact hByName name
  obtain ⟨k, hLast, hLastMoved, hFirstPlaces, hLastPlaces⟩ :=
    hMoved.exportPublicImports hConstantNames ρ.surjective hExport
  refine ⟨ρ, k, other, prepare_ok_iff.mpr ⟨hNames, ?_, hOtherConsistent, hOther, hLast⟩, hLastMoved, hGet, ?_⟩
  · intro name hName
    obtain ⟨file, hFile, hSameName⟩ := hPresent name hName
    exact ⟨file, hPerm.mem_iff.mp hFile, hSameName⟩
  · rw [hLastPlaces, hFirstPlaces]
    exact hPlaces

end Graph

/-! ### Emission -/

def Draft.addTo (manifest : Manifest) (draft : Draft) : Manifest :=
  draft.services.foldl (fun manifest service => manifest.add (Naming.dirName draft.apiName) service) manifest

/-- What is emitted for the files to generate before it is formatted, and the manifest of its services. -/
def Project.emission (project : Project) : Except Error (List Draft × Manifest) := do
  let drafts ← project.graph.toGenerate.mapM project.draft
  return (drafts, drafts.foldl Draft.addTo {})

def Project.ofFiles (files : List FileDecl) (names : List String) (rules : Http.Rules) (config : Config) :
    Except Error Project := do
  let (graph, index) ← Graph.prepare files names config.params
  return { graph, index, rules, config }

def emission (files : List FileDecl) (names : List String) (rules : Http.Rules) (config : Config) :
    Except Error (List Draft × Manifest) := do
  let project ← Project.ofFiles files names rules config
  project.emission

theorem Project.Moved.emission {ρ : Nat → Nat} {a b : Project} (h : Project.Moved ρ a b)
    (hPlaces : b.graph.toGenerate = a.graph.toGenerate.map ρ) : b.emission = a.emission := by
  have hDrafts : b.graph.toGenerate.mapM b.draft = a.graph.toGenerate.mapM a.draft := by
    rw [hPlaces, List.mapM_map]
    congr 1
    funext place
    exact (h.draft place).eq.symm
  rw [Project.emission, hDrafts, Project.emission]

theorem emission_of_perm {files others : List FileDecl} {names : List String} {rules : Http.Rules}
    {config : Config} (hPerm : files.Perm others) (hNodup : (files.map (·.name)).Nodup)
    (hAgree : OptionsAgree files names config.params) {result : List Draft × Manifest}
    (h : emission files names rules config = .ok result) :
    emission others names rules config = .ok result := by
  obtain ⟨project, hProject, hResult⟩ := bind_ok_iff.mp h
  obtain ⟨⟨g, index⟩, hPrepare, hSame⟩ := bind_ok_iff.mp hProject
  cases hSame
  obtain ⟨ρ, k, other, hOther, hMoved, hGet, hPlaces⟩ := Graph.prepare_perm hPerm hNodup hAgree hPrepare
  refine bind_ok_iff.mpr ⟨_, bind_ok_iff.mpr ⟨_, hOther, rfl⟩, ?_⟩
  have hProjects : Project.Moved ρ ⟨g, index, rules, config⟩ ⟨k, other, rules, config⟩ :=
    ⟨hMoved, hGet, rfl, rfl⟩
  exact (hProjects.emission hPlaces).trans hResult

theorem OptionsAgree.perm {files others : List FileDecl} {names : List String} {params : Parameters}
    (h : OptionsAgree files names params) (hPerm : files.Perm others) :
    OptionsAgree others names params :=
  fun a hA b hB => h a (hPerm.mem_iff.mpr hA) b (hPerm.mem_iff.mpr hB)

/-- The order of the files of a request does not count, as long as their names differ and the package
options of no two files of one import path contradict each other. -/
theorem emission_perm {files others : List FileDecl} (hPerm : files.Perm others)
    (hNodup : (files.map (·.name)).Nodup) (names : List String) (rules : Http.Rules) (config : Config)
    (hAgree : OptionsAgree files names config.params) (result : List Draft × Manifest) :
    emission files names rules config = .ok result ↔ emission others names rules config = .ok result := by
  constructor
  · exact emission_of_perm hPerm hNodup hAgree
  · exact emission_of_perm hPerm.symm ((hPerm.map _).nodup_iff.mp hNodup) (hAgree.perm hPerm)

/-- Two files of one package, the second of which imports the first publicly. -/
def shopFiles : List FileDecl :=
  [{ name := "item.proto", package := "shop", goPackage := "shop/v1;shop",
     messages := [.mk "Item" [] [] [] [] [] [] [] false false []] },
   { name := "order.proto", package := "shop", goPackage := "shop/v1;shop", imports := ["item.proto"],
     publicImports := [0],
     messages := [.mk "Order" [{ name := "item", type := .message, typeName := ".shop.Item" }] [] [] [] []
       [] [] false false []] }]

theorem emission_perm_shopFiles :
    shopFiles.Perm shopFiles.reverse ∧ (shopFiles.map (·.name)).Nodup ∧
      OptionsAgree shopFiles ["order.proto", "item.proto"] {} ∧
      (emission shopFiles ["order.proto", "item.proto"] {} {}).toOption.isSome = true ∧
      ∀ result, emission shopFiles ["order.proto", "item.proto"] {} {} = .ok result ↔
        emission shopFiles.reverse ["order.proto", "item.proto"] {} {} = .ok result := by
  have hPerm : shopFiles.Perm shopFiles.reverse := shopFiles.reverse_perm.symm
  have hNodup : (shopFiles.map (·.name)).Nodup := by decide
  have hAgree : OptionsAgree shopFiles ["order.proto", "item.proto"] {} := by
    have hShop : ∀ file ∈ shopFiles, (file.located ["order.proto", "item.proto"] {}).packageOption.name
        = some "shop" := by decide +kernel
    intro a hA b hB _ x y hX hY
    rw [hShop a hA] at hX
    rw [hShop b hB] at hY
    exact Option.some.inj (hX.symm.trans hY)
  exact ⟨hPerm, hNodup, hAgree, by rfl,
    emission_perm hPerm hNodup ["order.proto", "item.proto"] {} {} hAgree⟩

end ProtoBind
