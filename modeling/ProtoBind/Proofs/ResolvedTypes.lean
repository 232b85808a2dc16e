import Mathlib.Tactic.MkIffOfInductiveProp
import ProtoBind.Proofs.PreparedGraph

/-!
# Types that fields and methods name

Where enums and messages are named as such, and map entries only by fields that are maps, what an emitted
file refers to is never a map entry.
-/

set_option autoImplicit false

namespace ProtoBind

def FieldDecl.namesMessage (f : FieldDecl) : Bool := f.type == .message || f.type == .group

/-- Whether a field is a member of a oneof that it shares with others. -/
def FieldDecl.inOneof (f : FieldDecl) : Bool := f.oneofIndex.isSome && !f.proto3Optional

def Symbol.isMessage : Symbol → Bool
  | .message _ _ => true
  | _ => false

def Symbol.isEnum : Symbol → Bool
  | .enum _ _ => true
  | _ => false

def NameIndex.leadsTo (index : NameIndex) (kind : Symbol → Bool) (typeName : String) : Bool :=
  match index.get typeName with
  | .ok s => kind s
  | .error _ => false

theorem NameIndex.leadsTo_iff {index : NameIndex} {kind : Symbol → Bool} {typeName : String} :
    index.leadsTo kind typeName = true ↔ ∃ s, index.get typeName = .ok s ∧ kind s = true := by
  unfold leadsTo
  cases index.get typeName with
  | ok s => exact ⟨fun h => ⟨s, rfl, h⟩, fun ⟨_, hSame, h⟩ => Except.ok.inj hSame ▸ h⟩
  | error e => exact ⟨nofun, fun ⟨_, h, _⟩ => nomatch h⟩

namespace Graph

def messages (g : Graph) : List MessageNode := g.files.flatMap (·.messages)

def fields (g : Graph) : List FieldDecl := g.messages.flatMap (·.decl.fields)

def entries (g : Graph) : List MessageNode := g.messages.filter (·.decl.isMapEntry)

/-- The type names of what the methods of all services take and give. -/
def payloadNames (g : Graph) : List String :=
  g.files.flatMap fun file => file.decl.services.flatMap fun service =>
    service.methods.flatMap fun method => [method.inputType, method.outputType]

theorem mem_messages {g : Graph} {file place : Nat} {m : MessageNode}
    (h : g.message? file place = some m) : m ∈ g.messages := by
  obtain ⟨source, hSource, hM⟩ := Option.bind_eq_some_iff.mp h
  exact List.mem_flatMap.mpr ⟨source, List.mem_of_getElem? hSource, List.mem_of_getElem? hM⟩

/-- Type names lead to enums and messages where they are used as such. -/
@[mk_iff]
structure TypesResolve (g : Graph) (index : NameIndex) : Prop where
  enums : ∀ f ∈ g.fields, f.type = .enum → index.leadsTo Symbol.isEnum f.typeName = true
  messages : ∀ f ∈ g.fields, f.namesMessage = true → index.leadsTo Symbol.isMessage f.typeName = true
  methods : ∀ typeName ∈ g.payloadNames, index.leadsTo Symbol.isMessage typeName = true

/-- Map entries have a key and a value, and only repeated fields outside of oneofs refer to them. -/
@[mk_iff]
structure EntriesMapped (g : Graph) (index : NameIndex) : Prop where
  pair : ∀ entry ∈ g.entries, 2 ≤ entry.decl.fields.length
  fields : ∀ f ∈ g.fields, f.namesMessage = true → index.leadsTo g.isEntry f.typeName = true →
    f.label = .repeated ∧ f.inOneof = false
  methods : ∀ typeName ∈ g.payloadNames, index.leadsTo g.isEntry typeName = false

/-- No key and no value is a map entry, and a field that refers to a map entry says its name. -/
@[mk_iff]
structure EntriesPlain (g : Graph) (index : NameIndex) : Prop where
  flat : ∀ entry ∈ g.entries, ∀ f ∈ entry.decl.fields.take 2, f.namesMessage = true →
    index.leadsTo g.isEntry f.typeName = false
  named : ∀ f ∈ g.fields, f.namesMessage = true → index.leadsTo g.isEntry f.typeName = true →
    f.typeName ≠ ""

instance (g : Graph) (index : NameIndex) : Decidable (TypesResolve g index) :=
  decidable_of_iff _ (typesResolve_iff g index).symm

instance (g : Graph) (index : NameIndex) : Decidable (EntriesMapped g index) :=
  decidable_of_iff _ (entriesMapped_iff g index).symm

instance (g : Graph) (index : NameIndex) : Decidable (EntriesPlain g index) :=
  decidable_of_iff _ (entriesPlain_iff g index).symm

end Graph

namespace Emit

open ProtoBind.Graph

/-! ### Elements -/

theorem resolve_eq_ok_iff {scope : Scope} {typeName : String} {r : Reference} :
    scope.resolve typeName = .ok r ↔ scope.index.get typeName = .ok r.symbol ∧ r = scope.referTo r.symbol := by
  unfold Scope.resolve
  cases scope.index.get typeName with
  | ok s =>
    constructor
    · intro h
      cases h
      exact ⟨rfl, rfl⟩
    · rintro ⟨hSymbol, hRefer⟩
      rw [hRefer, Except.ok.inj hSymbol]
  | error e => exact ⟨nofun, fun h => nomatch h.1⟩

/-- The reference of an element is what the type name of the field leads to. -/
theorem resolve_of_element {scope : Scope} {field : FieldDecl} {element : Element} {r : Reference}
    (h : scope.element field = .ok element) (hR : r ∈ element.references) :
    scope.resolve field.typeName = .ok r ∧ (field.type = .enum ∨ field.namesMessage = true) := by
  have hMap : ∀ make : Reference → Element, (∀ found, (make found).references = [found]) →
      (scope.resolve field.typeName).map make = .ok element → scope.resolve field.typeName = .ok r := by
    intro make hMake hResolve
    cases hFound : scope.resolve field.typeName with
    | error e =>
      rw [hFound] at hResolve
      cases hResolve
    | ok found =>
      rw [hFound] at hResolve
      cases hResolve
      rw [hMake, List.mem_singleton] at hR
      rw [hR]
  rw [Scope.element] at h
  cases hType : field.type with
  | enum =>
    rw [hType] at h
    exact ⟨hMap .enum (fun _ => rfl) h, .inl rfl⟩
  | message | group =>
    rw [hType] at h
    dsimp only at h
    split at h
    · cases h
      cases hR
    · exact ⟨hMap .message (fun _ => rfl) h, .inr (by rw [FieldDecl.namesMessage, hType]; rfl)⟩
  | _ =>
    rw [hType] at h
    cases h
    cases hR

/-! ### Maps -/

/-- The type name of a field that is a map leads to an entry, whose first fields are its key and its value. -/
theorem entry_of_mapEntry? {scope : Scope} {field key value : FieldDecl}
    (h : scope.mapEntry? field = .ok (some (key, value))) :
    ∃ file i entry rest, scope.index.get field.typeName = .ok (.message file i) ∧
      scope.graph.message? file i = some entry ∧ entry.decl.isMapEntry = true ∧
        entry.decl.fields = key :: value :: rest := by
  unfold Scope.mapEntry? at h
  split at h
  · split at h
    · cases h
    · rename_i file i hGet
      cases hMessage : scope.graph.message? file i with
      | none =>
        rw [hMessage] at h
        cases h
      | some entry =>
        rw [hMessage] at h
        dsimp only at h
        split at h
        · rename_i hEntry
          split at h
          · rename_i k v rest hFields
            cases h
            exact ⟨file, i, entry, rest, hGet, hMessage, hEntry, hFields⟩
          · cases h
        · cases h
    · cases h
  · cases h

theorem mem_entries_of_mapEntry? {scope : Scope} {field key value : FieldDecl}
    (h : scope.mapEntry? field = .ok (some (key, value))) :
    ∃ entry ∈ scope.graph.entries, entry.decl.fields.take 2 = [key, value] := by
  obtain ⟨file, i, entry, rest, -, hMessage, hEntry, hFields⟩ := entry_of_mapEntry? h
  refine ⟨entry, List.mem_filter.mpr ⟨mem_messages hMessage, hEntry⟩, ?_⟩
  rw [hFields]
  rfl

/-- A repeated field that names a map entry is a map. -/
theorem exists_mapEntry? {scope : Scope} {field : FieldDecl} (hLabel : field.label = .repeated)
    (hName : field.typeName ≠ "") (hEntry : scope.index.leadsTo scope.graph.isEntry field.typeName = true)
    (hPair : ∀ entry ∈ scope.graph.entries, 2 ≤ entry.decl.fields.length) :
    ∃ pair, scope.mapEntry? field = .ok (some pair) := by
  obtain ⟨s, hGet, hKind⟩ := NameIndex.leadsTo_iff.mp hEntry
  unfold Scope.mapEntry?
  rw [if_pos ⟨hLabel, hName⟩, hGet]
  cases s with
  | message file i =>
    obtain ⟨entry, hMessage, hMap⟩ := (Option.any_eq_true _ _).mp hKind
    have hLength := hPair entry (List.mem_filter.mpr ⟨mem_messages hMessage, hMap⟩)
    dsimp only
    rw [hMessage]
    dsimp only
    rw [if_pos hMap]
    match hFields : entry.decl.fields with
    | key :: value :: _ => exact ⟨(key, value), rfl⟩
    | [_] | [] =>
      rw [hFields] at hLength
      simp at hLength
  | enum file i => cases hKind
  | extension file i => cases hKind
  | imported file target => cases hKind

/-- Only a repeated field looks its type name up, and fails only if that leads nowhere. -/
theorem exists_ok_mapEntry? {scope : Scope} {field : FieldDecl}
    (h : field.label = .repeated → field.typeName ≠ "" → ∃ s, scope.index.get field.typeName = .ok s) :
    ∃ pair, scope.mapEntry? field = .ok pair := by
  unfold Scope.mapEntry?
  split
  · rename_i hNamed
    obtain ⟨s, hGet⟩ := h hNamed.1 hNamed.2
    rw [hGet]
    cases s with
    | message file i =>
      dsimp only
      split
      · exact ⟨_, rfl⟩
      · split
        · split <;> exact ⟨_, rfl⟩
        · exact ⟨_, rfl⟩
    | enum file i => exact ⟨none, rfl⟩
    | extension file i => exact ⟨none, rfl⟩
    | imported file target => exact ⟨none, rfl⟩
  · exact ⟨none, rfl⟩

/-! ### Roles -/

theorem role_ok_cases {scope : Scope} {field : FieldDecl} {role : Role} (h : scope.role field = .ok role) :
    (field.inOneof = true ∧ ∃ index element, scope.element field = .ok element ∧ role = .member index element) ∨
      ∃ shape, scope.shape field = .ok shape ∧ role = .plain shape := by
  have hPlain : (scope.shape field).map Role.plain = .ok role →
      ∃ shape, scope.shape field = .ok shape ∧ role = .plain shape := by
    intro hShape
    cases hFound : scope.shape field with
    | error e =>
      rw [hFound] at hShape
      cases hShape
    | ok shape =>
      rw [hFound] at hShape
      cases hShape
      exact ⟨shape, rfl, rfl⟩
  rw [Scope.role] at h
  cases hIndex : field.oneofIndex with
  | none =>
    rw [hIndex] at h
    exact .inr (hPlain h)
  | some index =>
    cases hOptional : field.proto3Optional with
    | true =>
      rw [hIndex, hOptional] at h
      exact .inr (hPlain h)
    | false =>
      rw [hIndex, hOptional] at h
      dsimp only at h
      refine .inl ⟨by rw [FieldDecl.inOneof, hIndex, hOptional]; rfl, index, ?_⟩
      cases hFound : scope.element field with
      | error e =>
        rw [hFound] at h
        cases h
      | ok element =>
        rw [hFound] at h
        cases h
        exact ⟨element, rfl, rfl⟩

theorem references_single {scope : Scope} (field : FieldDecl) (element : Element) :
    (scope.single field element).references = element.references := by
  unfold Scope.single
  split
  · rfl
  · rfl
  · rfl
  · split <;> rfl

/-- A field outside of oneofs is a map of a key and a value, or holds elements of its own type. -/
theorem shape_ok_cases {scope : Scope} {field : FieldDecl} {shape : Shape}
    (h : scope.shape field = .ok shape) :
    (∃ key value k v, scope.mapEntry? field = .ok (some (key, value)) ∧ scope.element key = .ok k ∧
      scope.element value = .ok v ∧ shape = .map k v) ∨
    (scope.mapEntry? field = .ok none ∧
      ∃ element, scope.element field = .ok element ∧ shape.references = element.references) := by
  obtain ⟨pair, hPair, h⟩ := bind_ok_iff.mp h
  cases pair with
  | some pair =>
    obtain ⟨key, value⟩ := pair
    obtain ⟨k, hKey, h⟩ := bind_ok_iff.mp h
    obtain ⟨v, hValue, h⟩ := bind_ok_iff.mp h
    cases h
    exact .inl ⟨key, value, k, v, hPair, hKey, hValue, rfl⟩
  | none =>
    obtain ⟨element, hElement, h⟩ := bind_ok_iff.mp h
    refine .inr ⟨hPair, element, hElement, ?_⟩
    split at h
    · cases h
      rfl
    · cases h
      exact references_single field element

section

variable {scope : Scope} (hTypes : TypesResolve scope.graph scope.index)
  (hEntries : EntriesMapped scope.graph scope.index) (hPlain : EntriesPlain scope.graph scope.index)

theorem isEntry_of_leadsTo {typeName : String} {r : Reference} (hResolve : scope.resolve typeName = .ok r)
    (hEntry : scope.index.leadsTo scope.graph.isEntry typeName = false) :
    scope.graph.isEntry r.symbol = false := by
  rw [NameIndex.leadsTo, (resolve_eq_ok_iff.mp hResolve).1] at hEntry
  exact hEntry

include hTypes

theorem exists_element {field : FieldDecl} (hField : field ∈ scope.graph.fields) :
    ∃ element, scope.element field = .ok element := by
  have hResolve : ∀ kind, scope.index.leadsTo kind field.typeName = true →
      ∃ r, scope.resolve field.typeName = .ok r := by
    intro kind hKind
    obtain ⟨s, hGet, -⟩ := NameIndex.leadsTo_iff.mp hKind
    exact ⟨scope.referTo s, resolve_eq_ok_iff.mpr ⟨hGet, rfl⟩⟩
  rw [Scope.element]
  cases hType : field.type with
  | enum =>
    obtain ⟨r, hR⟩ := hResolve _ (hTypes.enums field hField hType)
    exact ⟨.enum r, by rw [hR]; rfl⟩
  | message | group =>
    have hNames : field.namesMessage = true := by
      rw [FieldDecl.namesMessage, hType]
      rfl
    obtain ⟨r, hR⟩ := hResolve _ (hTypes.messages field hField hNames)
    dsimp only
    split
    · exact ⟨_, rfl⟩
    · exact ⟨.message r, by rw [hR]; rfl⟩
  | _ => exact ⟨_, rfl⟩

/-- A field gets its role if its type name is found wherever it is looked up. -/
theorem exists_role {field : FieldDecl} (hField : field ∈ scope.graph.fields)
    (hRepeated : field.label = .repeated → field.typeName ≠ "" → ∃ s, scope.index.get field.typeName = .ok s) :
    ∃ role, scope.role field = .ok role := by
  obtain ⟨element, hElement⟩ := exists_element hTypes hField
  have hShape : ∃ shape, scope.shape field = .ok shape := by
    obtain ⟨pair, hPair⟩ := exists_ok_mapEntry? hRepeated
    cases pair with
    | none =>
      by_cases hLabel : field.label = .repeated
      · exact ⟨_, bind_ok_iff.mpr ⟨_, hPair, bind_ok_iff.mpr ⟨_, hElement, if_pos hLabel⟩⟩⟩
      · exact ⟨_, bind_ok_iff.mpr ⟨_, hPair, bind_ok_iff.mpr ⟨_, hElement, if_neg hLabel⟩⟩⟩
    | some pair =>
      obtain ⟨key, value⟩ := pair
      obtain ⟨entry, hEntry, hTake⟩ := mem_entries_of_mapEntry? hPair
      have hFields : ∀ f ∈ entry.decl.fields.take 2, f ∈ scope.graph.fields := fun f hF =>
        List.mem_flatMap.mpr ⟨entry, (List.mem_filter.mp hEntry).1, List.mem_of_mem_take hF⟩
      rw [hTake] at hFields
      obtain ⟨k, hKey⟩ := exists_element hTypes (hFields key List.mem_cons_self)
      obtain ⟨v, hValue⟩ :=
        exists_element hTypes (hFields value (List.mem_cons_of_mem _ List.mem_cons_self))
      exact ⟨_, bind_ok_iff.mpr ⟨_, hPair, bind_ok_iff.mpr ⟨k, hKey, bind_ok_iff.mpr ⟨v, hValue, rfl⟩⟩⟩⟩
  obtain ⟨shape, hShape⟩ := hShape
  rw [Scope.role]
  split
  · exact ⟨_, by rw [hElement]; rfl⟩
  · exact ⟨_, by rw [hShape]; rfl⟩

/-- An element refers to a map entry only if its field names a message that is one. -/
theorem not_isEntry_of_element {field : FieldDecl} (hField : field ∈ scope.graph.fields)
    {element : Element} (h : scope.element field = .ok element) {r : Reference}
    (hR : r ∈ element.references)
    (hEntry : field.namesMessage = true → scope.index.leadsTo scope.graph.isEntry field.typeName = false) :
    ∃ f ∈ scope.graph.fields, scope.resolve f.typeName = .ok r ∧ scope.graph.isEntry r.symbol = false := by
  obtain ⟨hResolve, hType⟩ := resolve_of_element h hR
  refine ⟨field, hField, hResolve, ?_⟩
  rcases hType with hEnum | hMessage
  · obtain ⟨s, hGet, hKind⟩ := NameIndex.leadsTo_iff.mp (hTypes.enums field hField hEnum)
    rw [Except.ok.inj ((resolve_eq_ok_iff.mp hResolve).1.symm.trans hGet)]
    cases s with
    | enum file i => rfl
    | message file i => cases hKind
    | extension file i => cases hKind
    | imported file target => cases hKind
  · exact isEntry_of_leadsTo hResolve (hEntry hMessage)

include hEntries hPlain

/-- What a field refers to is no map entry. -/
theorem not_isEntry_of_role {field : FieldDecl} (hField : field ∈ scope.graph.fields) {role : Role}
    (h : scope.role field = .ok role) {r : Reference} (hR : r ∈ role.references) :
    ∃ f ∈ scope.graph.fields, scope.resolve f.typeName = .ok r ∧ scope.graph.isEntry r.symbol = false := by
  rcases role_ok_cases h with ⟨hOneof, index, element, hElement, rfl⟩ | ⟨shape, hShape, rfl⟩
  · refine not_isEntry_of_element hTypes hField hElement hR fun hMessage => ?_
    rw [Bool.eq_false_iff]
    intro hEntry
    rw [(hEntries.fields field hField hMessage hEntry).2] at hOneof
    cases hOneof
  · rcases shape_ok_cases hShape with ⟨key, value, k, v, hMap, hKey, hValue, rfl⟩ | ⟨hNone, element, hElement, hSame⟩
    · obtain ⟨entry, hEntry, hTake⟩ := mem_entries_of_mapEntry? hMap
      have hElement : ∀ f ∈ entry.decl.fields.take 2, ∀ element, scope.element f = .ok element →
          r ∈ element.references →
            ∃ f ∈ scope.graph.fields, scope.resolve f.typeName = .ok r ∧
              scope.graph.isEntry r.symbol = false := by
        intro f hF element hOk hMem
        refine not_isEntry_of_element hTypes ?_ hOk hMem (hPlain.flat entry hEntry f hF)
        exact List.mem_flatMap.mpr ⟨entry, (List.mem_filter.mp hEntry).1, List.mem_of_mem_take hF⟩
      rw [hTake] at hElement
      rcases List.mem_append.mp hR with hMem | hMem
      · exact hElement key List.mem_cons_self k hKey hMem
      · exact hElement value (List.mem_cons_of_mem _ List.mem_cons_self) v hValue hMem
    · refine not_isEntry_of_element hTypes hField hElement (hSame ▸ hR) fun hMessage => ?_
      rw [Bool.eq_false_iff]
      intro hEntry
      obtain ⟨pair, hPair⟩ := exists_mapEntry? (hEntries.fields field hField hMessage hEntry).1
        (hPlain.named field hField hMessage hEntry) hEntry hEntries.pair
      rw [hPair] at hNone
      cases hNone

end

end Emit

end ProtoBind
