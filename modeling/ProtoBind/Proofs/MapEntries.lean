import ProtoBind.Proofs.AssemblySteps
import ProtoBind.Proofs.ModelImports
import ProtoBind.Proofs.NoDangling
import ProtoBind.Proofs.TypePaths

/-!
# Map entries

A message that stands for the entries of a map leaves no trace in emitted models but the maps themselves: every
other message and every enum is declared once, and only these are passed on and referred to.
-/

set_option autoImplicit false

namespace ProtoBind

open Naming Emit

/-- Whether the element type of a field is what its type name leads to. -/
def FieldDecl.namesType (f : FieldDecl) : Bool := f.type == .enum || f.namesMessage

namespace Graph

def refersToEntry (g : Graph) (index : NameIndex) (f : FieldDecl) : Bool :=
  f.namesType && index.leadsTo g.isEntry f.typeName

/-- Map entries have a key and a value, and only repeated fields outside of oneofs refer to them. -/
@[mk_iff]
structure EntriesRepeated (g : Graph) (index : NameIndex) : Prop where
  pair : ∀ entry ∈ g.entries, 2 ≤ entry.decl.fields.length
  repeated : ∀ f ∈ g.fields, g.refersToEntry index f = true → f.label = .repeated ∧ f.inOneof = false

/-- No key and no value of an entry refers to an entry itself, and fields that do say its name. -/
@[mk_iff]
structure EntriesFlat (g : Graph) (index : NameIndex) : Prop where
  flat : ∀ entry ∈ g.entries, ∀ f ∈ entry.decl.fields.take 2, g.refersToEntry index f = false
  named : ∀ f ∈ g.fields, g.refersToEntry index f = true → f.typeName ≠ ""

instance (g : Graph) (index : NameIndex) : Decidable (EntriesRepeated g index) :=
  decidable_of_iff _ (entriesRepeated_iff g index).symm

instance (g : Graph) (index : NameIndex) : Decidable (EntriesFlat g index) :=
  decidable_of_iff _ (entriesFlat_iff g index).symm

end Graph

namespace Emit

open ProtoBind.Graph

/-! ### Declarations -/

def enumText (e : EnumNode) : String := "pub struct " ++ typePathName e.typeName ++ "(pub i32);"

def structText (message : MessageNode) : String :=
  "pub struct " ++ typePathName message.typeName ++ (if message.decl.fields.isEmpty then " \x7b\x7d" else " \x7b")

theorem begins_with_structHead (name rest : String) : structHead <+: ("pub struct " ++ name ++ rest).toList := by
  rw [String.toList_append, String.toList_append, List.append_assoc]
  exact List.prefix_append _ _

theorem headedTexts_enum (file : FileNode) (e : EnumNode) :
    headedTexts 0 structHead (enumLines file e) = [enumText e] := by
  rw [headedTexts_enumLines headsTypes_struct, headedTexts_code (begins_with_structHead _ _)]
  rfl

theorem headedTexts_struct (names : LocalNames) (s : Struct) : headedTexts 0 structHead (s.lines names)
    = ["pub struct " ++ s.name ++ (if s.fields.isEmpty then " \x7b\x7d" else " \x7b")] := by
  have hEnums : (s.fields.flatMap fun field => headedTexts 0 structHead (field.enumLines names)) = [] :=
    List.flatMap_eq_nil_iff.mpr fun field _ => headedTexts_eq_nil (structNames_fieldEnumLines names field)
  rw [headedTexts_structLines headsTypes_struct, hEnums, List.append_nil]
  unfold Struct.declaration
  split
  · rw [headedTexts_code (begins_with_structHead _ _)]
    rfl
  · rw [headedTexts_block_zero _ _ (by decide), headedTexts_code (begins_with_structHead _ _)]
    rfl

theorem isEmpty_fields {scope : Scope} {message : MessageNode} {s : Struct} (h : Assembles scope message s) :
    s.fields.isEmpty = message.decl.fields.isEmpty := by
  obtain ⟨-, typed, used, hTyped, hFields⟩ := h
  have hLength := hTyped.length_eq
  rw [hFields]
  cases typed with
  | nil =>
    rw [List.length_eq_zero_iff.mp hLength]
    rfl
  | cons field rest =>
    have hSome : message.decl.fields ≠ [] := List.ne_nil_of_length_pos (by rw [hLength]; simp)
    have hGathered := gathered_assemble scope.file message used (field :: rest)
    have hAssembled := assembled_assemble scope.file message used (field :: rest)
    have hFields : (assemble scope.file message used (field :: rest)).fields ≠ [] := by
      intro hNil
      rw [hNil] at hGathered hAssembled
      cases hHome : field.role.home with
      | none =>
        have hNone := hGathered.plain
        rw [ofHome, List.filter_cons_of_pos (by simpa using hHome)] at hNone
        cases hNone
      | some index =>
        obtain ⟨o, hO, -⟩ := hAssembled.covered field List.mem_cons_self index hHome
        cases hO
    rw [List.isEmpty_eq_false_iff.mpr hFields, List.isEmpty_eq_false_iff.mpr hSome]

theorem headedTexts_of_prepare {scope : Scope} {files : List FileDecl} {names : List String} {params : Parameters}
    (hPrepare : Graph.prepare files names params = .ok (scope.graph, scope.index)) {model : ModelFile}
    (hModel : ModelFile.ofScope scope = .ok model) :
    headedTexts 0 structHead (model.lines params) = scope.file.decl.enumNodes.map enumText
      ++ (scope.file.decl.messageNodes.filter fun message => !message.decl.isMapEntry).map structText := by
  obtain ⟨hMessages, hEnums⟩ := Scope.file_of_prepare hPrepare
  have hEnumTexts : model.enums.map enumText = scope.file.decl.enumNodes.map enumText := by
    have hPaths := congrArg (List.map fun path => "pub struct " ++ typePathName path ++ "(pub i32);")
      (typeNames_of_nameEnums [] scope.file.decl.enumNodes)
    rw [List.map_map, List.map_map] at hPaths
    rw [ModelFile.enums_of_ofScope hModel, hEnums]
    exact hPaths
  have hStructTexts : (model.structs.flatMap fun s => headedTexts 0 structHead (s.lines model.names))
      = scope.declaredMessages.map structText := by
    have hAll := assembles_of_ofScope hModel
    generalize model.structs = structs at hAll ⊢
    generalize scope.declaredMessages = messages at hAll ⊢
    induction hAll with
    | nil => rfl
    | @cons message s _ _ hHead _ ih =>
      rw [List.flatMap_cons, ih, headedTexts_struct, isEmpty_fields hHead, hHead.1]
      rfl
  rw [headedTexts_modelLines headsTypes_struct, List.flatMap_congr fun e _ => headedTexts_enum model.file e,
    ← List.map_eq_flatMap, hEnumTexts, hStructTexts, Scope.declaredMessages, hMessages]

/-! ### References -/

theorem refersToEntry_of_leadsTo {g : Graph} {index : NameIndex} {f : FieldDecl}
    (hType : f.type = .enum ∨ f.namesMessage = true) (h : g.refersToEntry index f = false) :
    index.leadsTo g.isEntry f.typeName = false := by
  have hNames : f.namesType = true := by
    rw [FieldDecl.namesType, Bool.or_eq_true, beq_iff_eq]
    exact hType
  rwa [refersToEntry, hNames, Bool.true_and] at h

section

variable {scope : Scope}

theorem declarable_of_element (hPrepared : Prepared scope.graph scope.index) {field : FieldDecl} {element : Element}
    {r : Reference} (h : scope.element field = .ok element) (hR : r ∈ element.references)
    (hEntry : scope.graph.refersToEntry scope.index field = false) : Declarable scope.graph r.symbol := by
  obtain ⟨hResolve, hType⟩ := resolve_of_element h hR
  have hFound := hPrepared.found _ _ (resolve_eq_ok_iff.mp hResolve).1
  exact hPrepared.declarable hFound (isEntry_of_leadsTo hResolve (refersToEntry_of_leadsTo hType hEntry))

variable (hRepeated : EntriesRepeated scope.graph scope.index) (hFlat : EntriesFlat scope.graph scope.index)
include hRepeated hFlat

/-- A field that refers to a map entry is the map of its key and its value. -/
theorem exists_map_of_shape {field : FieldDecl} (hField : field ∈ scope.graph.fields) {shape : Shape}
    (h : scope.shape field = .ok shape) (hEntry : scope.graph.refersToEntry scope.index field = true) :
    ∃ key value k v, scope.mapEntry? field = .ok (some (key, value)) ∧ scope.element key = .ok k ∧
      scope.element value = .ok v ∧ shape = .map k v := by
  rcases shape_ok_cases h with hMap | ⟨hNone, -⟩
  · exact hMap
  · obtain ⟨pair, hPair⟩ := exists_mapEntry? (hRepeated.repeated field hField hEntry).1
      (hFlat.named field hField hEntry) (Bool.and_eq_true_iff.mp hEntry).2 hRepeated.pair
    rw [hPair] at hNone
    cases hNone

/-- What a field refers to is declared in the model of some file. -/
theorem declarable_of_role (hPrepared : Prepared scope.graph scope.index) {field : FieldDecl}
    (hField : field ∈ scope.graph.fields) {role : Role} (h : scope.role field = .ok role) {r : Reference}
    (hR : r ∈ role.references) : Declarable scope.graph r.symbol := by
  rcases role_ok_cases h with ⟨hOneof, index, element, hElement, rfl⟩ | ⟨shape, hShape, rfl⟩
  · refine declarable_of_element hPrepared hElement hR ?_
    rw [Bool.eq_false_iff]
    intro hEntry
    rw [(hRepeated.repeated field hField hEntry).2] at hOneof
    cases hOneof
  · rcases shape_ok_cases hShape with ⟨key, value, k, v, hMap, hKey, hValue, rfl⟩ | ⟨hNone, element, hElement, hSame⟩
    · obtain ⟨entry, hEntry, hTake⟩ := mem_entries_of_mapEntry? hMap
      have hElements := hFlat.flat entry hEntry
      rw [hTake] at hElements
      rcases List.mem_append.mp hR with hMem | hMem
      · exact declarable_of_element hPrepared hKey hMem (hElements key List.mem_cons_self)
      · exact declarable_of_element hPrepared hValue hMem (hElements value (List.mem_cons_of_mem _ List.mem_cons_self))
    · refine declarable_of_element hPrepared hElement (hSame ▸ hR) ?_
      rw [Bool.eq_false_iff]
      intro hEntry
      obtain ⟨key, value, k, v, hMap, -⟩ := exists_map_of_shape hRepeated hFlat hField hShape hEntry
      rw [hMap] at hNone
      cases hNone

end

/-! ### Maps -/

/-- A field is printed as the map of the element types of the first two fields of the entry it refers to. -/
def PrintedAsMap (scope : Scope) (names : LocalNames) (field : FieldDecl) (plain : PlainField) : Prop :=
  ∃ file i entry key value rest k v, scope.index.get field.typeName = .ok (.message file i) ∧
    scope.graph.message? file i = some entry ∧ entry.decl.isMapEntry = true ∧
    entry.decl.fields = key :: value :: rest ∧ scope.element key = .ok k ∧ scope.element value = .ok v ∧
    plain.shape = .map k v ∧ mapText names plain.name k v ∈ codeTexts (plain.lines names)

/-- All fields of a message that refer to map entries are printed as maps. -/
structure MapsPrinted (scope : Scope) (names : LocalNames) (message : MessageNode) (s : Struct) : Prop where
  alone : ∀ field ∈ message.decl.fields, scope.graph.refersToEntry scope.index field = true → field.home = none
  maps : List.Forall₂ (fun field plain =>
      scope.graph.refersToEntry scope.index field = true → PrintedAsMap scope names field plain)
    (message.decl.fields.filter fun field => field.home = none) (plains s.fields)

theorem home_eq_none {field : FieldDecl} (h : field.inOneof = false) : field.home = none := by
  unfold FieldDecl.home
  cases hOptional : field.proto3Optional with
  | true => rfl
  | false =>
    cases hIndex : field.oneofIndex with
    | none => rfl
    | some index =>
      rw [FieldDecl.inOneof, hOptional, hIndex] at h
      cases h

theorem mapsPrinted_of_assembles {scope : Scope} (hRepeated : EntriesRepeated scope.graph scope.index)
    (hFlat : EntriesFlat scope.graph scope.index) (names : LocalNames) {message : MessageNode} {s : Struct}
    (hMessage : message ∈ scope.declaredMessages) (h : Assembles scope message s) :
    MapsPrinted scope names message s := by
  obtain ⟨-, typed, used, hTyped, hFields⟩ := h
  constructor
  · intro field hField hEntry
    exact home_eq_none (hRepeated.repeated field (Project.mem_fields hMessage hField) hEntry).2
  · have hGathered := gathered_assemble scope.file message used typed
    have hRoles : ∀ t ∈ ofHome none typed, t.decl ∈ scope.graph.fields ∧ scope.role t.decl = .ok t.role := by
      intro t hT
      obtain ⟨field, hField, rfl, hRole⟩ := exists_of_forall₂_right hTyped t (List.mem_filter.mp hT).1
      exact ⟨Project.mem_fields hMessage hField, hRole⟩
    rw [← map_decl_ofHome hTyped none, List.forall₂_map_left_iff, hFields]
    refine ((List.forall₂_and_left _ _).mpr ⟨hRoles, hGathered.plain⟩).imp ?_
    rintro t plain ⟨⟨hField, hRole⟩, shape, hPlain, name, rfl⟩ hEntry
    rw [hPlain] at hRole
    rcases role_ok_cases hRole with ⟨-, index, element, -, hMember⟩ | ⟨found, hShape, hSame⟩
    · cases hMember
    · cases hSame
      obtain ⟨key, value, k, v, hMap, hKey, hValue, rfl⟩ := exists_map_of_shape hRepeated hFlat hField hShape hEntry
      obtain ⟨file, i, entry, rest, hGet, hFound, hIsEntry, hPair⟩ := entry_of_mapEntry? hMap
      exact ⟨file, i, entry, key, value, rest, k, v, hGet, hFound, hIsEntry, hPair, hKey, hValue, rfl,
        ModelFile.mapText_mem_lines names rfl⟩

end Emit

namespace Project

/-- Map entries leave no trace in a model but maps: its lines declare one type for each enum and one structure for
each other message, what it passes on and what it refers to is declared somewhere, and what refers to an entry is
printed as a map. -/
structure EntriesVanish (params : Parameters) (scope : Scope) (model : ModelFile) : Prop where
  declared : headedTexts 0 structHead (model.lines params) = scope.file.decl.enumNodes.map enumText
    ++ (scope.file.decl.messageNodes.filter fun message => !message.decl.isMapEntry).map structText
  passed : ∀ line ∈ model.aliasLines, line = .blank ∨ ∃ s ∈ scope.file.imported, Declarable scope.graph s ∧
    ∃ name ∈ scope.graph.exportedNames s, line = code (aliasText model.names (scope.graph.importPathOf s.file) name)
  named : ∀ r ∈ model.references, Declarable scope.graph r.symbol
  maps : List.Forall₂ (MapsPrinted scope model.names) scope.declaredMessages model.structs

theorem entries_vanish {project : Project} {files : List FileDecl} {names : List String}
    (hPrepare : Graph.prepare files names project.config.params = .ok (project.graph, project.index))
    (hRepeated : project.graph.EntriesRepeated project.index) (hFlat : project.graph.EntriesFlat project.index)
    {place : Nat} {model : ModelFile} (hModel : project.model place = .ok model) :
    EntriesVanish project.config.params (project.scope place .model) model := by
  have hPrepared := Graph.prepared_of_prepare hPrepare
  constructor
  · exact @headedTexts_of_prepare (project.scope place .model) _ _ _ hPrepare _ hModel
  · intro line hLine
    refine (ModelFile.mem_aliasLines hLine).imp_right ?_
    rintro ⟨a, hA, name, hName, rfl⟩
    obtain ⟨s, hS, rfl, -⟩ := ModelFile.exists_imported hModel hA
    refine ⟨s, hS, hPrepared.declarable_of_imported (file_mem_of_imported hS) hS (List.ne_nil_of_mem hName), name,
      hName, ?_⟩
    simp only [aliasText, String.append_assoc]
  · intro r hR
    obtain ⟨⟨message, hMessage, field, hField, role, hRole, hMem⟩, -⟩ := exists_field_of_mem hModel hR
    exact @declarable_of_role (project.scope place .model) hRepeated hFlat hPrepared _ (mem_fields hMessage hField) _
      hRole _ hMem
  · have hAll := (List.forall₂_and_left _ _).mpr
      ⟨fun message (h : message ∈ (project.scope place .model).declaredMessages) => h, assembles_of_ofScope hModel⟩
    exact hAll.imp fun message s h => mapsPrinted_of_assembles hRepeated hFlat model.names h.1 h.2

/-- A file with a map declares its message alone. -/
theorem entries_vanish_cartFiles : ∃ (g : Graph) (index : NameIndex),
    Graph.prepare cartFiles ["shop/cart.proto"] {} = .ok (g, index) ∧ g.EntriesRepeated index ∧ g.EntriesFlat index ∧
      ∃ model, Project.model ⟨g, index, {}, {}⟩ 1 = .ok model ∧
        EntriesVanish {} (Project.scope ⟨g, index, {}, {}⟩ 1 .model) model ∧
        headedTexts 0 structHead (model.lines {}) = ["pub struct Cart \x7b"] ∧
        "pub items: HashMap<String, stock::Item>," ∈ codeTexts model.body := by
  obtain ⟨g, index, hPrepare, hRepeated, hFlat, hTexts, model, hModel, hMap⟩ : ∃ (g : Graph) (index : NameIndex),
      Graph.prepare cartFiles ["shop/cart.proto"] {} = .ok (g, index) ∧ g.EntriesRepeated index ∧
        g.EntriesFlat index ∧
        ((Project.scope ⟨g, index, {}, {}⟩ 1 .model).file.decl.enumNodes.map enumText
          ++ ((Project.scope ⟨g, index, {}, {}⟩ 1 .model).file.decl.messageNodes.filter fun message =>
            !message.decl.isMapEntry).map structText) = ["pub struct Cart \x7b"] ∧
        ∃ model, Project.model ⟨g, index, {}, {}⟩ 1 = .ok model ∧
          "pub items: HashMap<String, stock::Item>," ∈ codeTexts model.body :=
    ⟨_, _, rfl, by decide +kernel, by decide +kernel, by decide +kernel, _, rfl, by decide +kernel⟩
  have hVanish := @entries_vanish ⟨g, index, {}, {}⟩ _ _ hPrepare hRepeated hFlat 1 model hModel
  exact ⟨g, index, hPrepare, hRepeated, hFlat, model, hModel, hVanish, hVanish.declared.trans hTexts, hMap⟩

end Project

/-- A request whose map entries are used by repeated fields only, with a file whose model refers to one. -/
def KeepsEntry (files : List FileDecl) : Prop :=
  ∃ project : Project, Graph.prepare files ["a.proto"] {} = .ok (project.graph, project.index) ∧
    project.graph.EntriesRepeated project.index ∧
    ∃ model, project.model 0 = .ok model ∧ ∃ r ∈ model.references, project.graph.isEntry r.symbol = true

theorem keepsEntry : KeepsEntry mapsOfMaps ∧ KeepsEntry mapsWithoutName := by
  constructor
  · exact ⟨⟨_, _, {}, {}⟩, rfl, by decide +kernel, _, rfl, _, List.mem_cons_self, by decide +kernel⟩
  · exact ⟨⟨_, _, {}, {}⟩, rfl, by decide +kernel, _, rfl, _, List.mem_cons_self, by decide +kernel⟩

end ProtoBind
