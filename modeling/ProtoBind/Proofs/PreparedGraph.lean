import ProtoBind.Proofs.Declarations
import ProtoBind.Proofs.MovedStages

/-!
# Graphs that emission looks at

What holds of a graph behind all stages: type names lead to messages and enums of its files, the values of
every enum have their constants, and what a file passes on is declared in another.
-/

set_option autoImplicit false

namespace ProtoBind

open Naming

/-! ### Constants -/

theorem length_nameConstants (stem : String) (used : List String) (values : List EnumValueDecl) :
    (nameConstants stem used values).1.length = values.length := by
  induction values generalizing used with
  | nil => rfl
  | cons value rest ih =>
    rw [nameConstants, List.length_cons, List.length_cons, ih]

theorem length_constants {used : List String} {enums : List EnumNode} :
    ∀ e ∈ nameEnums used enums, e.constants.length = e.decl.values.length := by
  induction enums generalizing used with
  | nil => exact fun e hE => absurd hE List.not_mem_nil
  | cons first rest ih =>
    intro e hE
    rw [nameEnums] at hE
    rcases List.mem_cons.mp hE with rfl | hE
    · exact length_nameConstants _ _ _
    · exact ih e hE

namespace Graph

/-! ### Public imports -/

section

variable {g last : Graph} (h : g.exportPublicImports = .ok last)
include h

theorem file?_of_exportPublicImports (place : Nat) :
    last.file? place = (g.file? place).map g.passingOn := by
  obtain ⟨-, rfl⟩ := exportPublicImports_ok_iff.mp h
  exact List.getElem?_map

theorem symbols_of_exportPublicImports : last.symbols = g.symbols := by
  obtain ⟨-, rfl⟩ := exportPublicImports_ok_iff.mp h
  rw [symbols, symbols, List.mapIdx_eq_zipIdx_map, List.mapIdx_eq_zipIdx_map, List.zipIdx_map,
    List.map_map]
  rfl

theorem exports_of_publicSymbols {file : FileNode} {symbols : List Symbol}
    (hSymbols : g.publicSymbols file = .ok symbols) :
    ∀ s ∈ symbols, ∃ place source, last.file? place = some source ∧ s ∈ source.exports place := by
  unfold publicSymbols at hSymbols
  split at hSymbols
  · cases hSymbols
  · cases hSymbols
    intro s hS
    obtain ⟨place, -, hMem⟩ := List.mem_flatMap.mp hS
    cases hSource : g.file? place with
    | none =>
      rw [hSource] at hMem
      cases hMem
    | some source =>
      rw [hSource] at hMem
      refine ⟨place, g.passingOn source, ?_, hMem⟩
      rw [file?_of_exportPublicImports h, hSource, Option.map_some]

end

/-! ### All stages -/

structure Prepared (g : Graph) (index : NameIndex) : Prop where
  found : ∀ typeName s, index.get typeName = .ok s → s ∈ g.symbols
  constants : ∀ file ∈ g.files, ∀ e ∈ file.enums, e.constants.length = e.decl.values.length
  imported : ∀ file ∈ g.files, ∀ s ∈ file.imported,
    ∃ place source, g.file? place = some source ∧ s ∈ source.exports place

theorem prepared_of_prepare {files : List FileDecl} {names : List String} {params : Parameters}
    {g : Graph} {index : NameIndex} (h : prepare files names params = .ok (g, index)) :
    Prepared g index := by
  obtain ⟨-, -, -, hIndex, hExport⟩ := prepare_ok_iff.mp h
  obtain ⟨hOk, hLast⟩ := exportPublicImports_ok_iff.mp hExport
  have hFiles : ∀ file ∈ g.files, ∃ first ∈ (resolved files names params).files,
      file = (resolved files names params).withConstants.passingOn
        { first with enums := nameEnums [] first.enums } := by
    intro file hFile
    rw [hLast] at hFile
    obtain ⟨named, hNamed, rfl⟩ := List.mem_map.mp hFile
    obtain ⟨first, hFirst, rfl⟩ := List.mem_map.mp hNamed
    exact ⟨first, hFirst, rfl⟩
  constructor
  case found =>
    intro typeName s hGet
    rw [NameIndex.get] at hGet
    split at hGet
    · rename_i found hFound
      cases hGet
      rw [symbols_of_exportPublicImports hExport]
      exact (((NameIndex.build_spec hIndex).2 _ _).mp hFound).1
    · cases hGet
  case constants =>
    intro file hFile e hE
    obtain ⟨first, -, rfl⟩ := hFiles file hFile
    exact length_constants e hE
  case imported =>
    intro file hFile s hS
    obtain ⟨first, hFirst, rfl⟩ := hFiles file hFile
    obtain ⟨symbols, hSymbols⟩ := hOk _ (List.mem_map_of_mem hFirst)
    rw [passingOn, hSymbols] at hS
    change s ∈ first.imported ++ symbols at hS
    rw [imported_resolved first hFirst, List.nil_append] at hS
    exact exports_of_publicSymbols hExport hSymbols s hS

/-! ### Declared symbols -/

def isEntry (g : Graph) : Symbol → Bool
  | .message file index => (g.message? file index).any (·.decl.isMapEntry)
  | _ => false

variable {g : Graph} {index : NameIndex} (h : Prepared g index)
include h

/-- Every symbol but map entries is declared in the model of its file. -/
theorem Prepared.declarable {s : Symbol} (hS : s ∈ g.symbols) (hEntry : g.isEntry s = false) :
    Emit.Declarable g s := by
  obtain ⟨file, hFile, hMem⟩ := mem_symbols_iff.mp hS
  rcases ProtoBind.mem_symbols_iff.mp hMem with ⟨place, hSymbol, hPlace⟩ | ⟨place, hSymbol, hPlace⟩
  · rw [hSymbol]
    refine .enum (Option.bind_eq_some_iff.mpr ⟨file, hFile, List.getElem?_eq_getElem hPlace⟩) ?_
    exact h.constants file (List.mem_of_getElem? hFile) _ (List.getElem_mem hPlace)
  · have hMessage : g.message? s.file place = some file.messages[place] :=
      Option.bind_eq_some_iff.mpr ⟨file, hFile, List.getElem?_eq_getElem hPlace⟩
    rw [hSymbol, isEntry, hMessage] at hEntry
    rw [hSymbol]
    exact .message hMessage hEntry

/-- What a file passes on is declared in the model of another one, if it has names at all. -/
theorem Prepared.declarable_of_imported {file : FileNode} (hFile : file ∈ g.files) {s : Symbol}
    (hS : s ∈ file.imported) (hNames : g.exportedNames s ≠ []) : Emit.Declarable g s := by
  obtain ⟨place, source, hSource, hMem⟩ := h.imported file hFile s hS
  rw [FileNode.exports, List.mem_append, List.mem_append] at hMem
  rcases hMem with (hMem | hMem) | hMem
  · obtain ⟨k, hK, rfl⟩ := List.mem_map.mp hMem
    obtain ⟨hRange, hAny⟩ := List.mem_filter.mp hK
    obtain ⟨m, hM, hEntry⟩ := (Option.any_eq_true _ _).mp hAny
    refine .message (Option.bind_eq_some_iff.mpr ⟨source, hSource, hM⟩) ?_
    rwa [Bool.not_eq_true'] at hEntry
  · obtain ⟨k, hK, rfl⟩ := List.mem_map.mp hMem
    have hBound := List.mem_range.mp hK
    refine .enum (Option.bind_eq_some_iff.mpr ⟨source, hSource, List.getElem?_eq_getElem hBound⟩) ?_
    exact h.constants source (List.mem_of_getElem? hSource) _ (List.getElem_mem hBound)
  · obtain ⟨k, -, rfl⟩ := List.mem_map.mp hMem
    exact absurd rfl hNames

end Graph

end ProtoBind
