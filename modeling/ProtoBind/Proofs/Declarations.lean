import ProtoBind.Proofs.References

/-!
# Declarations in models

The lines of a model declare a structure for each message that is no map entry, and a number type and its
constants for each enum.
-/

set_option autoImplicit false

namespace ProtoBind.Emit

open Naming

/-- What a declaration of a structure, a number type or a constant with a name begins with. -/
def declarationHeads (name : String) : List String :=
  ["pub struct " ++ name ++ " \x7b", "pub struct " ++ name ++ "(", "pub const " ++ name ++ ": "]

/-- Whether a line declares a structure, a number type or a constant with a name. -/
def declares (name : String) : Line → Bool
  | .code 0 text => (declarationHeads name).any fun head => head.toList.isPrefixOf text.toList
  | _ => false

theorem declares_code {name head : String} (h : head ∈ declarationHeads name) (rest : String) :
    declares name (code (head ++ rest)) = true := by
  refine List.any_eq_true.mpr ⟨head, h, List.isPrefixOf_iff_prefix.mpr ?_⟩
  rw [String.toList_append]
  exact List.prefix_append _ _

theorem declares_struct (name rest : String) :
    declares name (code ("pub struct " ++ name ++ " \x7b" ++ rest)) = true :=
  declares_code (by simp [declarationHeads]) rest

theorem declares_number (name rest : String) :
    declares name (code ("pub struct " ++ name ++ "(" ++ rest)) = true :=
  declares_code (by simp [declarationHeads]) rest

theorem declares_constant (name rest : String) :
    declares name (code ("pub const " ++ name ++ ": " ++ rest)) = true :=
  declares_code (by simp [declarationHeads]) rest

def Declares (lines : List Line) (name : String) : Prop := ∃ line ∈ lines, declares name line = true

instance (lines : List Line) (name : String) : Decidable (Declares lines name) :=
  inferInstanceAs (Decidable (∃ line ∈ lines, declares name line = true))

namespace Declares

variable {lines more : List Line} {name : String}

theorem left (h : Declares lines name) : Declares (lines ++ more) name := by
  obtain ⟨line, hLine, hName⟩ := h
  exact ⟨line, List.mem_append_left _ hLine, hName⟩

theorem right (h : Declares lines name) : Declares (more ++ lines) name := by
  obtain ⟨line, hLine, hName⟩ := h
  exact ⟨line, List.mem_append_right _ hLine, hName⟩

theorem flatMap {α : Type} {items : List α} {f : α → List Line} {item : α} (hItem : item ∈ items)
    (h : Declares (f item) name) : Declares (items.flatMap f) name := by
  obtain ⟨line, hLine, hName⟩ := h
  exact ⟨line, List.mem_flatMap.mpr ⟨item, hItem, hLine⟩, hName⟩

end Declares

/-! ### Structures -/

theorem declares_declaration (names : LocalNames) (s : Struct) : Declares (s.declaration names) s.name := by
  unfold Struct.declaration
  split
  · refine ⟨_, List.mem_singleton_self _, ?_⟩
    have hLine := declares_struct s.name "\x7d"
    rwa [String.append_assoc] at hLine
  · refine ⟨_, List.mem_cons_self, ?_⟩
    have hLine := declares_struct s.name ""
    rwa [String.append_empty] at hLine

theorem declares_structLines (names : LocalNames) (s : Struct) : Declares (s.lines names) s.name := by
  unfold Struct.lines
  exact (declares_declaration names s).right.left.left.left

/-! ### Enums -/

theorem declares_enumLines (file : FileNode) (e : EnumNode) :
    Declares (enumLines file e) (typePathName e.typeName) := by
  unfold enumLines
  dsimp only
  refine Declares.left (Declares.left (Declares.left (Declares.left (Declares.right ?_))))
  refine ⟨code ("pub struct " ++ typePathName e.typeName ++ "(pub i32);"), by simp, ?_⟩
  have hLine := declares_number (typePathName e.typeName) "pub i32);"
  rwa [String.append_assoc] at hLine

theorem declares_constants (file : FileNode) (e : EnumNode) (type name : String) (i : Nat)
    (values : List (EnumValueDecl × String)) (h : name ∈ values.map (·.2)) :
    Declares (EnumLines.constants file e type i values) name := by
  induction values generalizing i with
  | nil => cases h
  | cons value rest ih =>
    obtain ⟨value, constantName⟩ := value
    rw [EnumLines.constants]
    rcases List.mem_cons.mp h with hHead | hRest
    · obtain rfl : name = constantName := hHead
      refine Declares.left (Declares.right ⟨_, List.mem_singleton_self _, ?_⟩)
      have hLine := declares_constant name
        (type ++ " = " ++ type ++ "(" ++ toString value.number ++ ");")
      simpa only [String.append_assoc] using hLine
    · exact Declares.right (ih (i + 1) hRest)

theorem declares_enumConstants (file : FileNode) {e : EnumNode}
    (hLength : e.constants.length = e.decl.values.length) {name : String} (h : name ∈ e.constants) :
    Declares (enumLines file e) name := by
  unfold enumLines
  dsimp only
  refine Declares.left (Declares.left (Declares.left (Declares.right ?_)))
  refine declares_constants file e _ name 0 _ ?_
  rwa [List.map_snd_zip (Nat.le_of_eq hLength)]

/-! ### Models -/

namespace ModelFile

variable {model : ModelFile} {name : String}

theorem declares_of_enum (params : Parameters) {e : EnumNode} (hE : e ∈ model.enums)
    (h : Declares (enumLines model.file e) name) : Declares (model.lines params) name := by
  unfold ModelFile.lines ModelFile.body
  exact (Declares.flatMap hE h).right.left.left.right

theorem declares_of_struct (params : Parameters) {s : Struct} (hS : s ∈ model.structs) :
    Declares (model.lines params) s.name := by
  unfold ModelFile.lines ModelFile.body
  exact (Declares.flatMap hS (declares_structLines model.names s)).right.left.right

theorem exists_struct {scope : Scope} (h : ModelFile.ofScope scope = .ok model) {m : MessageNode}
    (hM : m ∈ scope.declaredMessages) : ∃ s ∈ model.structs, s.name = typePathName m.typeName := by
  unfold ModelFile.ofScope at h
  split at h
  · cases h
  · rename_i messages hMessages
    cases h
    rw [← Scope.map_node_typedMessages hMessages] at hM
    obtain ⟨message, hMessage, rfl⟩ := List.mem_map.mp hM
    have hName : typePathName message.node.typeName
        ∈ (Scope.structs scope.file scope.declaredNames messages).map (·.name) := by
      rw [Scope.map_name_structs]
      exact List.mem_map_of_mem hMessage
    exact List.mem_map.mp hName

theorem enums_of_ofScope {scope : Scope} (h : ModelFile.ofScope scope = .ok model) :
    model.enums = scope.file.enums := by
  unfold ModelFile.ofScope at h
  split at h
  · cases h
  · cases h
    rfl

end ModelFile

/-! ### Names of symbols -/

/-- A message that is no map entry, or an enum whose values all have their constants. -/
inductive Declarable (g : Graph) : Symbol → Prop where
  | message {file index : Nat} {m : MessageNode} (h : g.message? file index = some m)
      (hEntry : m.decl.isMapEntry = false) : Declarable g (.message file index)
  | enum {file index : Nat} {e : EnumNode} (h : g.enum? file index = some e)
      (hLength : e.constants.length = e.decl.values.length) : Declarable g (.enum file index)

theorem Declarable.typePathName_mem {g : Graph} {s : Symbol} (h : Declarable g s) :
    typePathName (g.typeName s) ∈ g.exportedNames s := by
  cases h with
  | message h _ => simp [Graph.exportedNames, Graph.typeName, h]
  | enum h _ => simp [Graph.exportedNames, Graph.typeName, h]

theorem Scope.file_of_file? {scope : Scope} {file : FileNode}
    (h : scope.graph.file? scope.place = some file) : scope.file = file := by
  rw [Scope.file, h, Option.getD_some]

/-- The model of a file declares all names that the file exports for a message or an enum. -/
theorem declares_exportedNames {g : Graph} {index : NameIndex} {s : Symbol} {model : ModelFile}
    (hModel : ModelFile.ofScope ⟨g, index, s.file, .model⟩ = .ok model) (hSymbol : Declarable g s)
    (params : Parameters) : ∀ name ∈ g.exportedNames s, Declares (model.lines params) name := by
  intro name hName
  cases hSymbol with
  | @message file i m hMessage hEntry =>
    obtain ⟨source, hSource, hIndex⟩ := Option.bind_eq_some_iff.mp hMessage
    rw [Graph.exportedNames, hMessage, Option.map_some, Option.getD_some, List.mem_singleton] at hName
    have hDeclared : m ∈ Scope.declaredMessages ⟨g, index, (Symbol.message file i).file, .model⟩ := by
      rw [Scope.declaredMessages, Scope.file_of_file? hSource]
      exact List.mem_filter.mpr ⟨List.mem_of_getElem? hIndex, by rw [hEntry]; rfl⟩
    obtain ⟨struct, hStruct, hSame⟩ := ModelFile.exists_struct hModel hDeclared
    rw [hName, ← hSame]
    exact ModelFile.declares_of_struct params hStruct
  | @enum file i e hEnum hLength =>
    obtain ⟨source, hSource, hIndex⟩ := Option.bind_eq_some_iff.mp hEnum
    rw [Graph.exportedNames, hEnum, Option.map_some, Option.getD_some] at hName
    have hDeclared : e ∈ model.enums := by
      rw [ModelFile.enums_of_ofScope hModel, Scope.file_of_file? hSource]
      exact List.mem_of_getElem? hIndex
    rcases List.mem_cons.mp hName with rfl | hConstant
    · exact ModelFile.declares_of_enum params hDeclared (declares_enumLines model.file e)
    · exact ModelFile.declares_of_enum params hDeclared
        (declares_enumConstants model.file hLength hConstant)

end ProtoBind.Emit
