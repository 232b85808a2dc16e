import ProtoBind.Emit.Api
import ProtoBind.Proofs.DistinctTypes
import ProtoBind.Proofs.LocalPackages

/-!
# References in emitted files

The references that a model or an API holds. Each comes from the type name of a field or a method, and
the file names the package it leads to.
-/

set_option autoImplicit false

namespace ProtoBind.Emit

open Naming

/-! ### References of what is emitted -/

def Element.references : Element → List Reference
  | .enum type | .message type => [type]
  | .scalar _ | .freeForm _ => []

def Shape.references : Shape → List Reference
  | .one element | .optional element | .many element => element.references
  | .boxed message => [message]
  | .map key value => key.references ++ value.references

def Role.references : Role → List Reference
  | .plain shape => shape.references
  | .member _ element => element.references

def Field.references : Field → List Reference
  | .plain field => field.shape.references
  | .oneof field => field.members.flatMap fun member => member.element.references

def Struct.references (s : Struct) : List Reference := s.fields.flatMap Field.references

/-- The types that the fields, the members of oneofs and the entries of maps of a model refer to. -/
def ModelFile.references (model : ModelFile) : List Reference := model.structs.flatMap Struct.references

def Payload.references : Payload → List Reference
  | .empty => []
  | .named reference => [reference]

def Endpoint.references (e : Endpoint) : List Reference := e.input.references ++ e.output.references

def ApiFile.references (api : ApiFile) : List Reference := api.endpoints.flatMap Endpoint.references

/-! ### Packages of references -/

theorem packages_subset_element {element : Element} {r : Reference} (h : r ∈ element.references) :
    r.packages ⊆ element.packages := by
  cases element with
  | enum type | message type =>
    rw [List.mem_singleton.mp h]
    exact List.Subset.refl _
  | scalar type | freeForm form => cases h

theorem packages_subset_role {role : Role} {r : Reference} (h : r ∈ role.references) :
    r.packages ⊆ role.packages := by
  cases role with
  | member oneof element => exact packages_subset_element h
  | plain shape =>
    cases shape with
    | one element | optional element | many element =>
      exact @packages_subset_element element r h
    | boxed message =>
      rw [List.mem_singleton.mp h]
      exact List.Subset.refl _
    | map key value =>
      rcases List.mem_append.mp h with hKey | hValue
      · exact List.subset_append_of_subset_left _ (packages_subset_element hKey)
      · exact List.subset_append_of_subset_right _ (packages_subset_element hValue)

theorem packages_subset_endpoint {e : Endpoint} {r : Reference} (h : r ∈ e.references) :
    r.packages ⊆ e.packages := by
  have hPayload : ∀ payload : Payload, r ∈ payload.references → r.packages ⊆ payload.packages := by
    intro payload hMem
    cases payload with
    | empty => cases hMem
    | named reference =>
      rw [List.mem_singleton.mp hMem]
      exact List.Subset.refl _
  rcases List.mem_append.mp h with hInput | hOutput
  · exact List.subset_append_of_subset_left _ (hPayload _ hInput)
  · exact List.subset_append_of_subset_right _ (hPayload _ hOutput)

/-! ### Where references come from -/

theorem mem_addMember {index : Int} {member : Member} {field : Field} {r : Reference}
    (h : r ∈ (field.addMember index member).references) :
    r ∈ field.references ∨ r ∈ member.element.references := by
  cases field with
  | plain field => exact .inl h
  | oneof oneof =>
    by_cases hIndex : oneof.index = index
    · rw [Field.addMember, if_pos hIndex, Field.references, List.flatMap_append, List.flatMap_singleton,
        List.mem_append] at h
      exact h
    · rw [Field.addMember, if_neg hIndex] at h
      exact .inl h

/-- What one more field brings in are the references of its role. -/
theorem mem_add {file : FileNode} {message : MessageNode} {state : Assembly} {field : TypedField}
    {r : Reference} (h : r ∈ (state.add file message field).fields.flatMap Field.references) :
    r ∈ state.fields.flatMap Field.references ∨ r ∈ field.role.references := by
  obtain ⟨decl, role, comment⟩ := field
  cases role with
  | plain shape =>
    rw [Assembly.add, List.flatMap_append, List.flatMap_singleton, List.mem_append] at h
    exact h
  | member index element =>
    unfold Assembly.add at h
    dsimp only at h
    split at h
    · rw [List.flatMap_map, List.mem_flatMap] at h
      obtain ⟨old, hOld, hMem⟩ := h
      rcases mem_addMember hMem with hField | hMember
      · exact .inl (List.mem_flatMap.mpr ⟨old, hOld, hField⟩)
      · exact .inr hMember
    · rw [List.flatMap_append, List.flatMap_singleton, List.mem_append] at h
      refine h.imp_right fun hNew => ?_
      rw [Field.references, List.flatMap_singleton] at hNew
      exact hNew

theorem mem_assemble {file : FileNode} {message : MessageNode} {typeNames : List String}
    {fields : List TypedField} {r : Reference}
    (h : r ∈ (assemble file message typeNames fields).fields.flatMap Field.references) :
    ∃ field ∈ fields, r ∈ field.role.references := by
  have hFold : ∀ state : Assembly,
      r ∈ (fields.foldl (Assembly.add file message) state).fields.flatMap Field.references →
        r ∈ state.fields.flatMap Field.references ∨ ∃ field ∈ fields, r ∈ field.role.references := by
    clear h
    induction fields with
    | nil => exact fun state hMem => .inl hMem
    | cons field rest ih =>
      intro state hMem
      rcases ih _ hMem with hState | ⟨other, hOther, hRole⟩
      · rcases mem_add hState with hOld | hNew
        · exact .inl hOld
        · exact .inr ⟨field, List.mem_cons_self, hNew⟩
      · exact .inr ⟨other, List.mem_cons_of_mem _ hOther, hRole⟩
  rcases hFold _ h with hNone | hSome
  · cases hNone
  · exact hSome

theorem mem_structs {file : FileNode} {typeNames : List String} {messages : List TypedMessage}
    {r : Reference} (h : r ∈ (Scope.structs file typeNames messages).flatMap Struct.references) :
    ∃ message ∈ messages, ∃ field ∈ message.fields, r ∈ field.role.references := by
  induction messages generalizing typeNames with
  | nil => cases h
  | cons message rest ih =>
    rw [Scope.structs, List.flatMap_cons, List.mem_append] at h
    rcases h with hHead | hRest
    · obtain ⟨field, hField, hRole⟩ := mem_assemble hHead
      exact ⟨message, List.mem_cons_self, field, hField, hRole⟩
    · obtain ⟨other, hOther, hFound⟩ := ih hRest
      exact ⟨other, List.mem_cons_of_mem _ hOther, hFound⟩

theorem decl_of_mem_typedFields {scope : Scope} {path : SourcePath} {i : Nat} {fields : List FieldDecl}
    {typed : List TypedField} (h : scope.typedFields path i fields = .ok typed) :
    ∀ t ∈ typed, t.decl ∈ fields ∧ scope.role t.decl = .ok t.role := by
  induction fields generalizing i typed with
  | nil =>
    cases h
    exact fun t hT => absurd hT List.not_mem_nil
  | cons field rest ih =>
    rw [Scope.typedFields] at h
    cases hRole : scope.role field with
    | error e =>
      rw [hRole] at h
      cases h
    | ok role =>
      cases hRest : scope.typedFields path (i + 1) rest with
      | error e =>
        simp only [bind, Except.bind, hRole, hRest] at h
        cases h
      | ok others =>
        simp only [bind, Except.bind, hRole, hRest] at h
        cases h
        intro t hT
        rcases List.mem_cons.mp hT with rfl | hT
        · exact ⟨List.mem_cons_self, hRole⟩
        · exact ⟨List.mem_cons_of_mem _ (ih hRest t hT).1, (ih hRest t hT).2⟩

/-- A reference of a model comes from a field of a message that the model declares. -/
theorem exists_field_of_mem {scope : Scope} {model : ModelFile} (h : ModelFile.ofScope scope = .ok model)
    {r : Reference} (hR : r ∈ model.references) :
    (∃ message ∈ scope.declaredMessages, ∃ field ∈ message.decl.fields, ∃ role,
      scope.role field = .ok role ∧ r ∈ role.references) ∧
    ∀ importPath ∈ r.packages, ∃ name, model.names.get? importPath = some name := by
  unfold ModelFile.ofScope at h
  split at h
  · cases h
  · rename_i messages hMessages
    cases h
    obtain ⟨message, hMessage, field, hField, hRole⟩ := mem_structs hR
    constructor
    · have hNode : message.node ∈ scope.declaredMessages := by
        rw [← Scope.map_node_typedMessages hMessages]
        exact List.mem_map_of_mem hMessage
      obtain ⟨declared, hDeclared, hTyped⟩ :=
        exists_of_forall₂_right (forall₂_of_mapM hMessages) message hMessage
      obtain rfl := Scope.node_of_typedMessage hTyped
      unfold Scope.typedMessage at hTyped
      split at hTyped
      · rename_i fields hFields
        rw [← Except.ok.inj hTyped] at hField
        obtain ⟨hDecl, hOk⟩ := decl_of_mem_typedFields hFields field hField
        exact ⟨_, hNode, field.decl, hDecl, field.role, hOk, hRole⟩
      · cases hTyped
    · intro importPath hPath
      refine LocalNames.exists_get?_ofPaths (List.mem_append_right _ ?_)
      exact List.mem_flatMap.mpr ⟨message, hMessage,
        List.mem_flatMap.mpr ⟨field, hField, packages_subset_role hRole hPath⟩⟩

theorem payloads_of_endpoint {scope : Scope} {rules : Http.Rules} {service : ServiceDecl}
    {path : SourcePath} {used : List String} {method : MethodDecl} {e : Endpoint}
    (h : scope.endpoint rules service path used method = .ok e) :
    (∃ binds, scope.payload method.inputType = .ok (e.input, binds)) ∧
      ∃ fills, scope.payload method.outputType = .ok (e.output, fills) := by
  obtain ⟨found, -, h⟩ := bind_ok_iff.mp h
  obtain ⟨input, hInput, h⟩ := bind_ok_iff.mp h
  obtain ⟨output, hOutput, h⟩ := bind_ok_iff.mp h
  cases h
  exact ⟨⟨_, hInput⟩, ⟨_, hOutput⟩⟩

theorem mem_endpoints {scope : Scope} {rules : Http.Rules} {service : ServiceDecl} {path : SourcePath}
    {i : Nat} {used : List String} {methods : List MethodDecl} {endpoints : List Endpoint}
    (h : scope.endpoints rules service path i used methods = .ok endpoints) :
    ∀ e ∈ endpoints, ∃ method ∈ methods, (∃ binds, scope.payload method.inputType = .ok (e.input, binds)) ∧
      ∃ fills, scope.payload method.outputType = .ok (e.output, fills) := by
  induction methods generalizing i used endpoints with
  | nil =>
    cases h
    exact fun e hE => absurd hE List.not_mem_nil
  | cons method rest ih =>
    rw [Scope.endpoints] at h
    obtain ⟨first, hFirst, h⟩ := bind_ok_iff.mp h
    obtain ⟨others, hOthers, h⟩ := bind_ok_iff.mp h
    cases h
    intro e hE
    rcases List.mem_cons.mp hE with rfl | hE
    · exact ⟨method, List.mem_cons_self, payloads_of_endpoint hFirst⟩
    · obtain ⟨found, hFound, hPayloads⟩ := ih hOthers e hE
      exact ⟨found, List.mem_cons_of_mem _ hFound, hPayloads⟩

theorem mem_services {scope : Scope} {rules : Http.Rules} {i : Nat} {decls : List ServiceDecl}
    {services : List Service} (h : scope.services rules i decls = .ok services) :
    ∀ s ∈ services, ∀ e ∈ s.endpoints, ∃ service ∈ decls, ∃ method ∈ service.methods,
      (∃ binds, scope.payload method.inputType = .ok (e.input, binds)) ∧
        ∃ fills, scope.payload method.outputType = .ok (e.output, fills) := by
  induction decls generalizing i services with
  | nil =>
    cases h
    exact fun s hS => absurd hS List.not_mem_nil
  | cons service rest ih =>
    rw [Scope.services] at h
    obtain ⟨endpoints, hEndpoints, h⟩ := bind_ok_iff.mp h
    obtain ⟨others, hOthers, h⟩ := bind_ok_iff.mp h
    cases h
    intro s hS e hE
    rcases List.mem_cons.mp hS with rfl | hS
    · exact ⟨service, List.mem_cons_self, mem_endpoints hEndpoints e hE⟩
    · obtain ⟨found, hFound, hMethod⟩ := ih hOthers s hS e hE
      exact ⟨found, List.mem_cons_of_mem _ hFound, hMethod⟩

/-- A reference of an API comes from what a method of the file takes or gives. -/
theorem exists_method_of_mem {scope : Scope} {rules : Http.Rules} {api : ApiFile}
    (h : ApiFile.ofScope scope rules = .ok api) {r : Reference} (hR : r ∈ api.references) :
    (∃ service ∈ scope.file.decl.services, ∃ method ∈ service.methods, ∃ payload,
      (scope.payload method.inputType = .ok payload ∨ scope.payload method.outputType = .ok payload) ∧
        r ∈ payload.1.references) ∧
    ∀ importPath ∈ r.packages, ∃ name, api.names.get? importPath = some name := by
  unfold ApiFile.ofScope at h
  split at h
  · cases h
  · rename_i services hServices
    cases h
    obtain ⟨e, hE, hMem⟩ := List.mem_flatMap.mp hR
    obtain ⟨s, hS, hE⟩ := List.mem_flatMap.mp hE
    obtain ⟨service, hService, method, hMethod, ⟨binds, hInput⟩, ⟨fills, hOutput⟩⟩ :=
      mem_services hServices s hS e hE
    constructor
    · refine ⟨service, hService, method, hMethod, ?_⟩
      rcases List.mem_append.mp hMem with hMem | hMem
      · exact ⟨_, .inl hInput, hMem⟩
      · exact ⟨_, .inr hOutput, hMem⟩
    · intro importPath hPath
      refine LocalNames.exists_get?_ofPaths ?_
      exact List.mem_flatMap.mpr ⟨s, hS,
        List.mem_flatMap.mpr ⟨e, hE, packages_subset_endpoint hMem hPath⟩⟩

end ProtoBind.Emit
