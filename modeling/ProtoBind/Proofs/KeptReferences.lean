import ProtoBind.Proofs.NoDangling
import ProtoBind.Proofs.UseItems

/-!
# References that are kept

Putting fields together loses no reference and adds none, a reference knows where its symbol is declared,
and a file mentions the package of a reference just where that is not its own.
-/

set_option autoImplicit false

namespace ProtoBind.Emit

/-! ### Packages -/

theorem mem_packages_referTo {scope : Scope} {s : Symbol} {importPath : String} :
    importPath ∈ (scope.referTo s).packages
      ↔ scope.graph.importPathOf s.file = importPath ∧ importPath ≠ scope.file.importPath := by
  unfold Reference.packages Scope.referTo Scope.homeOf
  dsimp only
  by_cases hHere : s.file = scope.place ∧ scope.pass = .model
  · rw [if_pos hHere]
    refine ⟨fun h => absurd h List.not_mem_nil, ?_⟩
    rintro ⟨rfl, hOther⟩
    rw [hHere.1, importPathOf_place] at hOther
    exact absurd rfl hOther
  · rw [if_neg hHere]
    by_cases hSame : scope.graph.importPathOf s.file = scope.file.importPath
    · rw [if_pos hSame]
      refine ⟨fun h => absurd h List.not_mem_nil, ?_⟩
      rintro ⟨rfl, hOther⟩
      exact absurd hSame hOther
    · rw [if_neg hSame]
      constructor
      · intro h
        obtain rfl := List.mem_singleton.mp h
        exact ⟨rfl, hSame⟩
      · rintro ⟨rfl, -⟩
        exact List.mem_singleton_self _

theorem mem_packages_element {element : Element} {importPath : String} :
    importPath ∈ element.packages ↔ ∃ r ∈ element.references, importPath ∈ r.packages := by
  cases element with
  | enum type | message type => simp [Element.packages, Element.references]
  | scalar type | freeForm form => simp [Element.packages, Element.references]

theorem mem_packages_role {role : Role} {importPath : String} :
    importPath ∈ role.packages ↔ ∃ r ∈ role.references, importPath ∈ r.packages := by
  cases role with
  | member oneof element => exact mem_packages_element
  | plain shape =>
    cases shape with
    | one element | optional element | many element => exact @mem_packages_element element importPath
    | boxed message => simp [Role.packages, Shape.packages, Role.references, Shape.references]
    | map key value =>
      simp [Role.packages, Shape.packages, Role.references, Shape.references, mem_packages_element, or_and_right,
        exists_or]

theorem mem_packages_endpoint {e : Endpoint} {importPath : String} :
    importPath ∈ e.packages ↔ ∃ r ∈ e.references, importPath ∈ r.packages := by
  have hPayload : ∀ payload : Payload,
      importPath ∈ payload.packages ↔ ∃ r ∈ payload.references, importPath ∈ r.packages := by
    rintro (_ | reference) <;> simp [Payload.packages, Payload.references]
  simp [Endpoint.packages, Endpoint.references, hPayload, or_and_right, exists_or]

/-! ### Symbols -/

/-- What a field refers to is what some type name leads to. -/
theorem exists_resolve_of_role {scope : Scope} {field : FieldDecl} {role : Role} (h : scope.role field = .ok role)
    {r : Reference} (hR : r ∈ role.references) : ∃ typeName, scope.resolve typeName = .ok r := by
  rcases role_ok_cases h with ⟨-, index, element, hOk, rfl⟩ | ⟨shape, hShape, rfl⟩
  · exact ⟨_, (resolve_of_element hOk hR).1⟩
  · rcases shape_ok_cases hShape with ⟨key, value, k, v, -, hKey, hValue, rfl⟩ | ⟨-, element, hOk, hSame⟩
    · rcases List.mem_append.mp hR with hMem | hMem
      · exact ⟨_, (resolve_of_element hKey hMem).1⟩
      · exact ⟨_, (resolve_of_element hValue hMem).1⟩
    · exact ⟨_, (resolve_of_element hOk (hSame ▸ hR)).1⟩

theorem ModelFile.exists_resolve {scope : Scope} {model : ModelFile} (h : ofScope scope = .ok model) {r : Reference}
    (hR : r ∈ model.references) : ∃ typeName, scope.resolve typeName = .ok r := by
  obtain ⟨⟨message, -, field, -, role, hRole, hMem⟩, -⟩ := exists_field_of_mem h hR
  exact exists_resolve_of_role hRole hMem

theorem ApiFile.exists_resolve {scope : Scope} {rules : Http.Rules} {api : ApiFile} (h : ofScope scope rules = .ok api)
    {r : Reference} (hR : r ∈ api.references) : ∃ typeName, scope.resolve typeName = .ok r := by
  obtain ⟨⟨service, -, method, -, payload, hPayload, hMem⟩, -⟩ := exists_method_of_mem h hR
  rcases hPayload with hInput | hOutput
  · exact ⟨_, Project.resolve_of_payload hInput hMem⟩
  · exact ⟨_, Project.resolve_of_payload hOutput hMem⟩

theorem ModelFile.refers {scope : Scope} {model : ModelFile} (h : ofScope scope = .ok model) {r : Reference}
    (hR : r ∈ model.references) : r = scope.referTo r.symbol := by
  obtain ⟨typeName, hResolve⟩ := exists_resolve h hR
  exact (resolve_eq_ok_iff.mp hResolve).2

theorem ApiFile.refers {scope : Scope} {rules : Http.Rules} {api : ApiFile} (h : ofScope scope rules = .ok api)
    {r : Reference} (hR : r ∈ api.references) : r = scope.referTo r.symbol := by
  obtain ⟨typeName, hResolve⟩ := exists_resolve h hR
  exact (resolve_eq_ok_iff.mp hResolve).2

/-! ### Fields -/

theorem mem_references_addMember {index : Int} {member : Member} {field : Field}
    {r : Reference} (h : r ∈ field.references) : r ∈ (field.addMember index member).references := by
  cases field with
  | plain field => exact h
  | oneof oneof =>
    rw [Field.addMember]
    split
    · rw [Field.references, List.flatMap_append]
      exact List.mem_append_left _ h
    · exact h

/-- One more field keeps the references so far and adds its own. -/
theorem mem_references_add {file : FileNode} {message : MessageNode} {state : Assembly} {field : TypedField}
    {r : Reference} (h : r ∈ state.fields.flatMap Field.references ∨ r ∈ field.role.references) :
    r ∈ (state.add file message field).fields.flatMap Field.references := by
  obtain ⟨decl, role, comment⟩ := field
  cases role with
  | plain shape =>
    rw [Assembly.add, List.flatMap_append, List.flatMap_singleton]
    exact List.mem_append.mpr h
  | member index element =>
    unfold Assembly.add
    dsimp only
    split
    · rename_i hAny
      rw [List.flatMap_map]
      rcases h with hOld | hNew
      · obtain ⟨old, hField, hMem⟩ := List.mem_flatMap.mp hOld
        exact List.mem_flatMap.mpr ⟨old, hField, mem_references_addMember hMem⟩
      · obtain ⟨old, hField, hOneof⟩ := List.any_eq_true.mp hAny
        refine List.mem_flatMap.mpr ⟨old, hField, ?_⟩
        cases old with
        | plain field => cases hOneof
        | oneof oneof =>
          rw [Field.addMember, if_pos (beq_iff_eq.mp hOneof), Field.references, List.flatMap_append,
            List.flatMap_singleton]
          exact List.mem_append_right _ hNew
    · rw [List.flatMap_append, List.flatMap_singleton, Field.references, List.flatMap_singleton]
      exact List.mem_append.mpr h

theorem mem_references_assemble {file : FileNode} {message : MessageNode} {typeNames : List String}
    {fields : List TypedField} {field : TypedField} (hField : field ∈ fields) {r : Reference}
    (h : r ∈ field.role.references) :
    r ∈ (assemble file message typeNames fields).fields.flatMap Field.references := by
  have hKept : ∀ (fields : List TypedField) (state : Assembly), r ∈ state.fields.flatMap Field.references →
      r ∈ (fields.foldl (Assembly.add file message) state).fields.flatMap Field.references := by
    intro fields
    induction fields with
    | nil => exact fun _ hState => hState
    | cons field rest ih => exact fun state hState => ih _ (mem_references_add (.inl hState))
  have hFold : ∀ state : Assembly,
      r ∈ (fields.foldl (Assembly.add file message) state).fields.flatMap Field.references := by
    induction fields with
    | nil => cases hField
    | cons other rest ih =>
      intro state
      rcases List.mem_cons.mp hField with rfl | hRest
      · exact hKept rest _ (mem_references_add (.inr h))
      · exact ih hRest _
  exact hFold _

theorem mem_references_structs {file : FileNode} {typeNames : List String} {messages : List TypedMessage}
    {message : TypedMessage} (hMessage : message ∈ messages) {field : TypedField}
    (hField : field ∈ message.fields)
    {r : Reference} (h : r ∈ field.role.references) :
    r ∈ (Scope.structs file typeNames messages).flatMap Struct.references := by
  induction messages generalizing typeNames with
  | nil => cases hMessage
  | cons first rest ih =>
    rw [Scope.structs, List.flatMap_cons, List.mem_append]
    rcases List.mem_cons.mp hMessage with rfl | hRest
    · exact .inl (mem_references_assemble hField h)
    · exact .inr (ih hRest)

/-! ### Aliases -/

theorem Scope.mem_aliases {scope : Scope} {a : Alias} : a ∈ scope.aliases ↔
    ∃ s ∈ scope.file.imported, scope.graph.importPathOf s.file ≠ scope.file.importPath ∧
      scope.graph.exportedNames s ≠ [] ∧ a = ⟨scope.graph.importPathOf s.file, scope.graph.exportedNames s⟩ := by
  rw [aliases, List.mem_filterMap]
  refine exists_congr fun s => and_congr_right fun _ => ?_
  dsimp only
  split
  · rename_i hDropped
    refine ⟨nofun, ?_⟩
    rintro ⟨hOther, hSome, -⟩
    exact absurd hDropped (not_or.mpr ⟨hOther, hSome⟩)
  · rename_i hKept
    rw [not_or] at hKept
    rw [Option.some.injEq, eq_comm]
    exact ⟨fun h => ⟨hKept.1, hKept.2, h⟩, fun h => h.2.2⟩

theorem ModelFile.aliases_eq {scope : Scope} {model : ModelFile} (h : ofScope scope = .ok model) :
    model.aliases = scope.aliases := by
  unfold ofScope at h
  split at h
  · cases h
  · cases h
    rfl

/-! ### Packages of files -/

/-- A model has a local name for the packages of its aliases and of its references, and for no other. -/
theorem ModelFile.mem_paths {scope : Scope} {model : ModelFile} (h : ofScope scope = .ok model)
    {importPath : String} : importPath ∈ model.names.paths ↔ (∃ a ∈ model.aliases, a.importPath = importPath) ∨
      ∃ r ∈ model.references, importPath ∈ r.packages := by
  unfold ofScope at h
  split at h
  · cases h
  · rename_i messages hMessages
    cases h
    rw [LocalNames.mem_paths_ofPaths, packages, List.mem_append, List.mem_map]
    refine or_congr Iff.rfl ?_
    constructor
    · intro hMem
      obtain ⟨message, hMessage, hMem⟩ := List.mem_flatMap.mp hMem
      obtain ⟨field, hField, hRole⟩ := List.mem_flatMap.mp hMem
      obtain ⟨r, hR, hPackage⟩ := mem_packages_role.mp hRole
      exact ⟨r, mem_references_structs hMessage hField hR, hPackage⟩
    · rintro ⟨r, hR, hPackage⟩
      obtain ⟨message, hMessage, field, hField, hMem⟩ := mem_structs hR
      exact List.mem_flatMap.mpr ⟨message, hMessage,
        List.mem_flatMap.mpr ⟨field, hField, mem_packages_role.mpr ⟨r, hMem, hPackage⟩⟩⟩

/-- An API has a local name for the packages of its references, and for no other. -/
theorem ApiFile.mem_paths {scope : Scope} {rules : Http.Rules} {api : ApiFile} (h : ofScope scope rules = .ok api)
    {importPath : String} :
    importPath ∈ api.names.paths ↔ ∃ r ∈ api.references, importPath ∈ r.packages := by
  unfold ofScope at h
  split at h
  · cases h
  · cases h
    rw [LocalNames.mem_paths_ofPaths]
    simp only [packages, references, ApiFile.endpoints, List.mem_flatMap, mem_packages_endpoint]
    constructor
    · rintro ⟨s, hS, e, hE, r, hR, hPackage⟩
      exact ⟨r, ⟨e, ⟨s, hS, hE⟩, hR⟩, hPackage⟩
    · rintro ⟨r, ⟨e, ⟨s, hS, hE⟩, hR⟩, hPackage⟩
      exact ⟨s, hS, e, hE, r, hR, hPackage⟩

end ProtoBind.Emit
