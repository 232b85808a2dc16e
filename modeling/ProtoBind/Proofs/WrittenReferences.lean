import ProtoBind.Proofs.CodeTexts
import ProtoBind.Proofs.References

/-!
# References in the lines

The lines of a structure or of a method show every reference in it, and they depend on the local names of
packages only as far as these references do.
-/

set_option autoImplicit false

namespace ProtoBind.Emit

open Naming Text

/-- Whether two choices of local names agree on the packages of some references. -/
def Agree (names other : LocalNames) (references : List Reference) : Prop :=
  ∀ r ∈ references, ∀ importPath ∈ r.packages, other.get importPath = names.get importPath

variable {names other : LocalNames}

theorem Agree.mono {wide narrow : List Reference} (h : Agree names other wide) (hSubset : narrow ⊆ wide) :
    Agree names other narrow := fun r hR => h r (hSubset hR)

theorem Agree.of_mem {α : Type} {items : List α} {f : α → List Reference}
    (h : Agree names other (items.flatMap f)) {item : α} (hItem : item ∈ items) : Agree names other (f item) :=
  fun r hR => h r (List.mem_flatMap.mpr ⟨item, hItem, hR⟩)

/-! ### Types -/

theorem Reference.text_congr {r : Reference}
    (h : ∀ importPath ∈ r.packages, other.get importPath = names.get importPath) : r.text other = r.text names := by
  unfold text packages at *
  cases hHome : r.home with
  | here => rfl
  | sibling => rfl
  | package importPath =>
    rw [hHome] at h
    dsimp only
    rw [h importPath (List.mem_singleton_self _)]

theorem Element.text_congr {element : Element} (h : Agree names other element.references) :
    element.text other = element.text names := by
  cases element with
  | enum type | message type => exact Reference.text_congr (h type (List.mem_singleton_self _))
  | scalar type | freeForm form => rfl

theorem Shape.text_congr {shape : Shape} (h : Agree names other shape.references) :
    shape.text other = shape.text names := by
  cases shape with
  | one element => exact Element.text_congr h
  | optional element | many element => rw [text, text, Element.text_congr h]
  | boxed message => rw [text, text, Reference.text_congr (h message (List.mem_singleton_self _))]
  | map key value =>
    rw [text, text, Element.text_congr (h.mono (List.subset_append_left _ _)),
      Element.text_congr (h.mono (List.subset_append_right _ _))]

theorem Payload.text_congr {payload : Payload} (h : Agree names other payload.references) :
    payload.text other = payload.text names := by
  cases payload with
  | empty => rfl
  | named reference => exact Reference.text_congr (h reference (List.mem_singleton_self _))

theorem Element.text_of_mem {element : Element} {r : Reference} (h : r ∈ element.references) :
    element.text names = r.text names := by
  cases element with
  | enum type | message type => rw [List.mem_singleton.mp h, text]
  | scalar type | freeForm form => cases h

theorem Shape.infix_text {shape : Shape} {r : Reference} (h : r ∈ shape.references) :
    (r.text names).toList <:+: (shape.text names).toList := by
  cases shape with
  | one element =>
    have hText : (one element).text names = r.text names := Element.text_of_mem h
    exact hText ▸ List.infix_refl _
  | optional element | many element =>
    rw [text, Element.text_of_mem h]
    exact infix_append _ _ _
  | boxed message =>
    rw [text, List.mem_singleton.mp h]
    exact infix_append _ _ _
  | map key value =>
    rw [text]
    rcases List.mem_append.mp h with hKey | hValue
    · rw [Element.text_of_mem hKey, String.append_assoc, String.append_assoc]
      exact infix_append _ _ _
    · rw [Element.text_of_mem hValue]
      exact infix_append _ _ _

/-! ### Fields -/

theorem Field.lines_congr {field : Field} (h : Agree names other field.references) :
    field.lines other = field.lines names := by
  cases field with
  | plain field => rw [lines, lines, PlainField.lines, PlainField.lines, Shape.text_congr h]
  | oneof field => rfl

theorem Member.payload_congr {member : Member} (h : Agree names other member.element.references) :
    member.payload other = member.payload names := by
  unfold payload
  split
  · rename_i message hElement
    rw [hElement] at h
    rw [Reference.text_congr (h message (List.mem_singleton_self _))]
  · exact Element.text_congr h

theorem Field.enumLines_congr {field : Field} (h : Agree names other field.references) :
    field.enumLines other = field.enumLines names := by
  cases field with
  | plain field => rfl
  | oneof field =>
    have hMembers : field.members.flatMap (Member.variantLines other)
        = field.members.flatMap (Member.variantLines names) :=
      List.flatMap_congr fun member hMember => by
        rw [Member.variantLines, Member.variantLines, Member.payload_congr (h.of_mem hMember)]
    rw [enumLines, enumLines, OneofField.enumLines, OneofField.enumLines, hMembers]

theorem Field.getterLines_congr {field : Field} (h : Agree names other field.references) :
    field.getterLines other = field.getterLines names := by
  cases field with
  | plain field => rfl
  | oneof field =>
    refine List.flatMap_congr fun member hMember => ?_
    rw [Member.getterLines, Member.getterLines, Element.text_congr (h.of_mem hMember)]

theorem Struct.lines_congr {s : Struct} (h : Agree names other s.references) : s.lines other = s.lines names := by
  have hFields : s.fields.flatMap (Field.lines other) = s.fields.flatMap (Field.lines names) :=
    List.flatMap_congr fun field hField => Field.lines_congr (h.of_mem hField)
  have hEnums : s.fields.flatMap (Field.enumLines other) = s.fields.flatMap (Field.enumLines names) :=
    List.flatMap_congr fun field hField => Field.enumLines_congr (h.of_mem hField)
  have hGetters : s.fields.flatMap (Field.getterLines other) = s.fields.flatMap (Field.getterLines names) :=
    List.flatMap_congr fun field hField => Field.getterLines_congr (h.of_mem hField)
  rw [lines, lines, declaration, declaration, methods, methods, hFields, hEnums, hGetters]

theorem Member.infix_payload {member : Member} {r : Reference} (h : r ∈ member.element.references) :
    (r.text names).toList <:+: (member.payload names).toList := by
  unfold payload
  split
  · rename_i message hElement
    rw [hElement] at h
    rw [List.mem_singleton.mp h]
    exact infix_append _ _ _
  · exact @Element.text_of_mem names _ r h ▸ List.infix_refl _

theorem Struct.fieldTexts_subset {s : Struct} {field : Field} (hField : field ∈ s.fields) :
    codeTexts (field.lines names) ⊆ codeTexts (s.lines names) := by
  intro text hText
  have hDeclared : text ∈ codeTexts (s.declaration names) := by
    have hNonempty : ¬ s.fields.isEmpty = true := fun hEmpty =>
      List.ne_nil_of_mem hField (List.isEmpty_iff.mp hEmpty)
    rw [declaration, if_neg hNonempty, codeTexts_block, codeTexts_flatMap]
    exact List.mem_cons_of_mem _ (List.mem_append_left _ (List.mem_flatMap.mpr ⟨field, hField, hText⟩))
  simp only [lines, codeTexts_append, List.mem_append]
  exact .inl (.inl (.inl (.inr hDeclared)))

theorem Struct.variantTexts_subset {s : Struct} {field : OneofField} (hField : .oneof field ∈ s.fields)
    {member : Member} (hMember : member ∈ field.members) :
    codeTexts (member.variantLines names) ⊆ codeTexts (s.lines names) := by
  intro text hText
  have hEnum : text ∈ codeTexts (Field.enumLines names (.oneof field)) := by
    rw [Field.enumLines, OneofField.enumLines, List.cons_append, codeTexts_code, codeTexts_append, codeTexts_block,
      codeTexts_flatMap]
    refine List.mem_cons_of_mem _ (List.mem_append_left _ (List.mem_cons_of_mem _ (List.mem_append_left _ ?_)))
    exact List.mem_flatMap.mpr ⟨member, hMember, hText⟩
  simp only [lines, codeTexts_append, codeTexts_flatMap, List.mem_append]
  exact .inl (.inr (List.mem_flatMap.mpr ⟨_, hField, hEnum⟩))

/-- A structure shows what its fields and the members of its oneofs refer to. -/
theorem Struct.shows {s : Struct} {r : Reference} (h : r ∈ s.references) :
    Shows (s.lines names) (r.text names) := by
  obtain ⟨field, hField, hMem⟩ := List.mem_flatMap.mp h
  cases field with
  | plain field =>
    refine ⟨"pub " ++ fieldIdentifier field.name ++ ": " ++ field.shape.text names ++ ",",
      fieldTexts_subset hField ?_, (Shape.infix_text hMem).trans (infix_append _ _ _)⟩
    simp [Field.lines, PlainField.lines]
  | oneof field =>
    obtain ⟨member, hMember, hMem⟩ := List.mem_flatMap.mp hMem
    refine ⟨member.variant ++ "(" ++ member.payload names ++ "),",
      variantTexts_subset hField hMember ?_, (Member.infix_payload hMem).trans (infix_append _ _ _)⟩
    simp [Member.variantLines]

/-! ### Methods -/

theorem Endpoint.handlerLines_congr {e : Endpoint} (h : Agree names other e.references) :
    e.handlerLines other = e.handlerLines names := by
  rw [handlerLines, handlerLines, Payload.text_congr (h.mono (List.subset_append_left _ _)),
    Payload.text_congr (h.mono (List.subset_append_right _ _))]

theorem Endpoint.routeLines_congr {e : Endpoint} (h : Agree names other e.references) (errorCode : Int) :
    e.routeLines other errorCode = e.routeLines names errorCode := by
  have hDispatch : e.dispatchLines other errorCode = e.dispatchLines names errorCode := by
    rw [dispatchLines, dispatchLines, Payload.text_congr (h.mono (List.subset_append_left _ _)),
      Payload.text_congr (h.mono (List.subset_append_right _ _))]
  rw [routeLines, routeLines, hDispatch]

/-- The items of a service depend on the names of the packages that its methods refer to. -/
theorem Service.lines_congr {s : Service}
    (h : Agree names other (s.endpoints.flatMap Endpoint.references)) (errorCode : Int) :
    s.traitLines other = s.traitLines names ∧
      s.registerLines other errorCode = s.registerLines names errorCode := by
  have hHandlers : s.endpoints.flatMap (Endpoint.handlerLines other)
      = s.endpoints.flatMap (Endpoint.handlerLines names) :=
    List.flatMap_congr fun e hE => Endpoint.handlerLines_congr (h.of_mem hE)
  have hRoutes : (s.endpoints.flatMap fun e =>
        block "\x7b" (code "let h = Arc::clone(&h);" :: e.routeLines other errorCode) "\x7d")
      = s.endpoints.flatMap fun e =>
        block "\x7b" (code "let h = Arc::clone(&h);" :: e.routeLines names errorCode) "\x7d" :=
    List.flatMap_congr fun e hE => by rw [Endpoint.routeLines_congr (h.of_mem hE)]
  rw [traitLines, traitLines, registerLines, registerLines, hHandlers, hRoutes]
  exact ⟨rfl, rfl⟩

/-- The trait of a service shows what its methods take and give. -/
theorem Service.shows {s : Service} {e : Endpoint} (hE : e ∈ s.endpoints) {r : Reference} (h : r ∈ e.references) :
    Shows (s.traitLines names) (r.text names) := by
  have hLine : ∀ text ∈ codeTexts (e.handlerLines names), text ∈ codeTexts (s.traitLines names) := by
    intro text hText
    simp only [traitLines, codeTexts_append, codeTexts_block, codeTexts_flatMap, List.mem_append, List.mem_cons,
      List.mem_flatMap]
    exact .inl (.inr (.inr (.inl ⟨e, hE, hText⟩)))
  have hPayload : ∀ payload : Payload, r ∈ payload.references → payload.text names = r.text names := by
    intro payload hMem
    cases payload with
    | empty => cases hMem
    | named reference => rw [List.mem_singleton.mp hMem, Payload.text]
  rcases List.mem_append.mp h with hInput | hOutput
  · refine ⟨"input: &" ++ e.input.text names ++ ",", hLine _ (by simp [Endpoint.handlerLines]), ?_⟩
    rw [hPayload _ hInput]
    exact infix_append _ _ _
  · refine ⟨"output: &mut " ++ e.output.text names ++ ",", hLine _ (by simp [Endpoint.handlerLines]), ?_⟩
    rw [hPayload _ hOutput]
    exact infix_append _ _ _

end ProtoBind.Emit
