import Mathlib.Data.List.TakeWhile
import ProtoBind.Proofs.FreshEnums
import ProtoBind.Proofs.PreparedGraph

/-!
# Constants of a file

The values of all enums of a file are named in turn, without regard to other files. A constant has an underscore
in it and no small letter, which keeps it apart from all types.
-/

set_option autoImplicit false

namespace ProtoBind

open Naming Text Emit

/-! ### What constants begin with -/

namespace EnumNode

/-- The names that the constants of an enum begin with: those of the message around it, or its own at top level. -/
def titlePath (e : EnumNode) : List String :=
  match e.parent with
  | none => [e.decl.name]
  | some _ => e.typeName.dropLast

def constantRequests (e : EnumNode) : List String :=
  e.decl.values.map fun value =>
    screamingSnake (String.join (e.titlePath.map pascal)) ++ "_" ++ upper value.name

end EnumNode

theorem trimmed_of_not_mem {cs : List Char} (h : '_' ∉ cs) : (cs.reverse.dropWhile (· == '_')).reverse = cs := by
  rw [List.reverse_eq_iff, List.dropWhile_eq_self_iff]
  intro hPos hUnderscore
  exact h (List.mem_reverse.mp (beq_iff_eq.mp hUnderscore ▸ List.getElem_mem hPos))

theorem trimmed_escapeTypeName {name : String} (h : '_' ∉ name.toList) :
    ((escapeTypeName name).toList.reverse.dropWhile (· == '_')).reverse = name.toList := by
  rw [escapeTypeName_toList]
  split
  · rw [List.reverse_append]
    exact trimmed_of_not_mem h
  · exact trimmed_of_not_mem h

theorem underscore_not_mem_join_pascal (path : List String) : '_' ∉ (String.join (path.map pascal)).toList := by
  rw [join_pascal]
  exact underscore_not_mem_flatSpelling path

/-- The underscore behind a reserved name is not part of what constants begin with. -/
theorem constantPrefix_eq (e : EnumNode) :
    e.constantPrefix = screamingSnake (String.join (e.titlePath.map pascal)) := by
  have hTrimmed : ∀ name : String, (name.toList.reverse.dropWhile (· == '_')).reverse
      = (String.join (e.titlePath.map pascal)).toList →
        screamingSnake (String.ofList (name.toList.reverse.dropWhile (· == '_')).reverse)
          = screamingSnake (String.join (e.titlePath.map pascal)) := by
    intro name hName
    rw [hName, String.ofList_toList]
  rw [EnumNode.constantPrefix]
  apply hTrimmed
  rw [EnumNode.titlePath]
  cases e.parent with
  | none =>
    have hUnderscore := underscore_not_mem_join_pascal [e.decl.name]
    have hAlone : String.join ([e.decl.name].map pascal) = pascal e.decl.name := String.empty_append
    rw [hAlone] at hUnderscore ⊢
    exact trimmed_of_not_mem hUnderscore
  | some parent => exact trimmed_escapeTypeName (underscore_not_mem_join_pascal _)

/-! ### Names in turn -/

theorem mem_used_of_nameConstants {stem : String} {used : List String} {values : List EnumValueDecl} {word : String} :
    word ∈ (nameConstants stem used values).2 ↔ word ∈ (nameConstants stem used values).1 ++ used := by
  induction values generalizing used with
  | nil => exact Iff.rfl
  | cons value rest ih =>
    rw [nameConstants]
    exact ih.trans List.perm_middle.mem_iff

theorem inTurn_nameConstants (stem : String) (used : List String) (values : List EnumValueDecl) :
    InTurn "_" used (values.map fun value => stem ++ "_" ++ upper value.name) (nameConstants stem used values).1 := by
  induction values generalizing used with
  | nil => exact .nil
  | cons value rest ih => exact .cons (leastFree_withSuffix (by decide) _ _) (ih _)

/-- The names that are busy go through the enums of a file one by one. -/
theorem inTurn_nameEnums (used : List String) (enums : List EnumNode) :
    InTurn "_" used ((nameEnums used enums).flatMap (·.constantRequests))
      ((nameEnums used enums).flatMap (·.constants)) := by
  induction enums generalizing used with
  | nil => exact .nil
  | cons e rest ih =>
    have hHead : InTurn "_" used e.constantRequests (nameConstants e.constantPrefix used e.decl.values).1 := by
      rw [EnumNode.constantRequests, ← constantPrefix_eq]
      exact inTurn_nameConstants _ _ _
    rw [nameEnums, List.flatMap_cons, List.flatMap_cons]
    exact hHead.append ((ih _).congr fun word => mem_used_of_nameConstants)

/-! ### Capitals -/

def IsShouted (name : String) : Prop := '_' ∈ name.toList ∧ ∀ c ∈ name.toList, c.isLower = false

theorem isLower_upper (name : String) : ∀ c ∈ (upper name).toList, c.isLower = false := by
  rw [upper, String.toList_ofList, List.forall_mem_map]
  exact fun c _ => isLower_toUpper c

theorem isLower_underscore : ∀ c ∈ "_".toList, c.isLower = false := List.forall_mem_singleton.mpr rfl

theorem isShouted_constant (title name : String) (n : Nat) :
    IsShouted (repeatedly "_" (screamingSnake title ++ "_" ++ upper name) n) := by
  induction n with
  | zero =>
    rw [repeatedly, IsShouted, String.toList_append, String.toList_append, List.forall_mem_append,
      List.forall_mem_append]
    exact ⟨by simp, ⟨isLower_upper _, isLower_underscore⟩, isLower_upper _⟩
  | succ n ih =>
    rw [repeatedly, IsShouted, String.toList_append]
    exact ⟨List.mem_append_left _ ih.1, List.forall_mem_append.mpr ⟨ih.2, isLower_underscore⟩⟩

theorem any_isLower_reserved : ∀ name ∈ reservedTypeNames, name.toList.any Char.isLower = true := by decide

/-- A type name has an underscore only behind a reserved name, which has small letters. -/
theorem any_isLower_of_underscore {path : List String} (h : '_' ∈ (typePathName path).toList) :
    (typePathName path).toList.any Char.isLower = true := by
  rw [typePathName, escapeTypeName_toList] at h ⊢
  split
  · rename_i hReserved
    rw [List.any_append, any_isLower_reserved _ hReserved, Bool.true_or]
  · rename_i hFree
    rw [if_neg hFree] at h
    exact absurd h (underscore_not_mem_join_pascal path)

theorem not_isShouted_of_any {name : String} (h : name.toList.any Char.isLower = true) : ¬ IsShouted name := by
  rintro ⟨-, hNone⟩
  obtain ⟨c, hC, hLower⟩ := List.any_eq_true.mp h
  exact absurd hLower (by simp [hNone c hC])

theorem not_isShouted_typePathName (path : List String) : ¬ IsShouted (typePathName path) :=
  fun h => not_isShouted_of_any (any_isLower_of_underscore h.1) h

theorem not_isShouted_enumName (message : MessageNode) (index : Int) (n : Nat) :
    ¬ IsShouted (repeatedly "Oneof" (enumRequest message index) n) := by
  intro h
  cases n with
  | zero =>
    have hUnderscore := h.1
    rw [repeatedly, enumRequest, String.toList_append, pascal_toList] at hUnderscore
    rcases List.mem_append.mp hUnderscore with hType | hOneof
    · refine not_isShouted_of_any ?_ h
      rw [repeatedly, enumRequest, String.toList_append, List.any_append, any_isLower_of_underscore hType, Bool.true_or]
    · have hNone := underscore_not_mem_flatSpelling [oneofName message index]
      rw [flatSpelling, List.flatMap_singleton] at hNone
      exact hNone hOneof
  | succ n =>
    refine not_isShouted_of_any ?_ h
    rw [repeatedly, String.toList_append, List.any_append, Bool.or_eq_true]
    exact .inr (by decide)

/-! ### Files -/

/-- The constants of a file: one for each value, given out in turn, and none of them the name of a type. -/
structure ConstantsNamed (file : FileNode) : Prop where
  count : ∀ e ∈ file.enums, e.constants.length = e.decl.values.length
  distinct : (file.enums.flatMap (·.constants)).Nodup
  least : InTurn "_" [] (file.enums.flatMap (·.constantRequests)) (file.enums.flatMap (·.constants))
  apart : ∀ name ∈ file.enums.flatMap (·.constants),
    (∀ message ∈ file.messages, name ≠ typePathName message.typeName) ∧
      ∀ e ∈ file.enums, name ≠ typePathName e.typeName
  beside : ∀ scope model, ModelFile.ofScope scope = .ok model → ∀ name ∈ enumNames model.structs,
    name ∉ file.enums.flatMap (·.constants)
  ends : ∀ busy request, ∃ name, GrowsTo "_" busy request name

theorem constantsNamed {file : FileNode} {enums : List EnumNode} (hEnums : file.enums = nameEnums [] enums) :
    ConstantsNamed file := by
  have hLeast := inTurn_nameEnums [] enums
  rw [← hEnums] at hLeast
  have hShouted : ∀ name ∈ file.enums.flatMap (·.constants), IsShouted name := by
    intro name hName
    obtain ⟨request, hRequest, n, rfl⟩ := hLeast.exists_request name hName
    obtain ⟨e, -, hValue⟩ := List.mem_flatMap.mp hRequest
    obtain ⟨value, -, rfl⟩ := List.mem_map.mp hValue
    exact isShouted_constant _ _ n
  constructor
  case count =>
    rw [hEnums]
    exact length_constants
  case distinct => exact hLeast.nodup
  case least => exact hLeast
  case apart =>
    intro name hName
    refine ⟨?_, ?_⟩
    · rintro message - rfl
      exact not_isShouted_typePathName _ (hShouted _ hName)
    · rintro e - rfl
      exact not_isShouted_typePathName _ (hShouted _ hName)
  case beside =>
    intro scope model hModel name hName hConstant
    obtain ⟨message, -, field, -, index, n, -, rfl⟩ := Scope.exists_home_of_enumName hModel name hName
    exact not_isShouted_enumName message index n (hShouted _ hConstant)
  case ends => exact fun busy request => ⟨_, growsTo_withSuffix (by decide) busy request⟩

/-- A file of a request, once packages are resolved and constants are named. -/
def Graph.NamesIn (files : List FileDecl) (names : List String) (params : Parameters) (file : FileNode) : Prop :=
  ∃ g k, Graph.ofFiles files names = .ok g ∧ g.resolvePackages params = .ok k ∧ file ∈ k.withConstants.files

theorem enums_of_namesIn {files : List FileDecl} {names : List String} {params : Parameters} {file : FileNode}
    (h : Graph.NamesIn files names params file) : file.enums = nameEnums [] file.decl.enumNodes := by
  obtain ⟨g, k, hFiles, hPackages, hFile⟩ := h
  obtain ⟨-, -, rfl⟩ := Graph.ofFiles_ok_iff.mp hFiles
  obtain ⟨-, rfl⟩ := Graph.resolvePackages_ok_iff.mp hPackages
  obtain ⟨first, hFirst, rfl⟩ := List.mem_map.mp hFile
  have hResolved : first ∈ (Graph.resolved files names params).files := hFirst
  rw [Graph.files_resolved] at hResolved
  obtain ⟨decl, -, rfl⟩ := List.mem_map.mp hResolved
  rfl

/-- Every file has a constant of its own for each value of its enums, apart from its types, and which ones it has does
not depend on the request that it is part of. -/
theorem constants_named :
    (∀ (g : Graph), ∀ file ∈ g.withConstants.files, ConstantsNamed file) ∧
      ∀ files names params file others otherNames otherParams other,
        Graph.NamesIn files names params file → Graph.NamesIn others otherNames otherParams other →
          file.decl = other.decl → file.enums.map (·.constants) = other.enums.map (·.constants) := by
  constructor
  · intro g file hFile
    obtain ⟨first, -, rfl⟩ := List.mem_map.mp hFile
    exact constantsNamed rfl
  · intro files names params file others otherNames otherParams other hFile hOther hSame
    rw [enums_of_namesIn hFile, enums_of_namesIn hOther, hSame]

/-- A file with enums in a message of a reserved name and at top level, whose values ask for each other's constants. -/
def crowdedConstants : FileDecl where
  name := "a.proto"
  messages := [.mk "Vec" [] [] [{ name := "Size", values := [{ name := "BIG" }] },
    { name := "Order", values := [{ name := "big" }, { name := "BIG_" }] }] [] [] [] [] false false []]
  enums := [{ name := "vec", values := [{ name := "Big" }] }]

theorem constants_named_crowded : ∃ (g : Graph) (file other : FileNode), file ∈ g.withConstants.files ∧
    Graph.NamesIn [crowdedConstants] ["a.proto"] {} file ∧
    Graph.NamesIn [{ name := "b.proto" }, crowdedConstants] ["b.proto"] {} other ∧ file.decl = other.decl ∧
    file.enums.map (·.constants) = [["VEC_BIG"], ["VEC_BIG_"], ["VEC_BIG__", "VEC_BIG___"]] ∧ ConstantsNamed file ∧
    file.enums.map (·.constants) = other.enums.map (·.constants) := by
  obtain ⟨g, k, file, hFiles, hPackages, hFile, hDecl, hConstants⟩ : ∃ (g k : Graph) (file : FileNode),
      Graph.ofFiles [crowdedConstants] ["a.proto"] = .ok g ∧ g.resolvePackages {} = .ok k ∧
        file ∈ k.withConstants.files ∧ file.decl = crowdedConstants ∧
        file.enums.map (·.constants) = [["VEC_BIG"], ["VEC_BIG_"], ["VEC_BIG__", "VEC_BIG___"]] :=
    ⟨_, _, _, rfl, rfl, List.mem_cons_self, rfl, by decide +kernel⟩
  obtain ⟨other, hOther, hSame⟩ : ∃ other,
      Graph.NamesIn [{ name := "b.proto" }, crowdedConstants] ["b.proto"] {} other ∧ other.decl = crowdedConstants :=
    ⟨_, ⟨_, _, rfl, rfl, List.mem_cons_of_mem _ List.mem_cons_self⟩, rfl⟩
  have hNames : Graph.NamesIn [crowdedConstants] ["a.proto"] {} file := ⟨g, k, hFiles, hPackages, hFile⟩
  have hDecls : file.decl = other.decl := hDecl.trans hSame.symm
  exact ⟨k, file, other, hFile, hNames, hOther, hDecls, hConstants, constants_named.1 k file hFile,
    constants_named.2 _ _ _ _ _ _ _ _ hNames hOther hDecls⟩

end ProtoBind
