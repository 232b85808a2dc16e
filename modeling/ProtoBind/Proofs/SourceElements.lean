import ProtoBind.Proofs.SourcePaths
import ProtoBind.Schema.Decode

/-!
# Elements of schema files

What stands at a spot of a schema file, and that the path of the spot leads there from the fields of the
file as they came in: each number is that of a repeated field of messages, each index behind it a place
among these messages.
-/

set_option autoImplicit false

namespace ProtoBind

open Wire

/-! ### Elements at spots -/

inductive SchemaElement where
  | package (name : String)
  | message (decl : MessageDecl)
  | field (decl : FieldDecl)
  | oneof (decl : OneofDecl)
  | enum (decl : EnumDecl)
  | value (decl : EnumValueDecl)
  | service (decl : ServiceDecl)
  | method (decl : MethodDecl)

def MessageDecl.within? : List Nat → MessageDecl → Option MessageDecl
  | [], message => some message
  | i :: rest, message => message.nested[i]?.bind (within? rest)

namespace FileDecl

variable (file : FileDecl)

def messageAt? (spot : MessageSpot) : Option MessageDecl :=
  file.messages[spot.outermost]?.bind (MessageDecl.within? spot.nested)

def enumAt? : EnumSpot → Option EnumDecl
  | .outermost i => file.enums[i]?
  | .within spot i => (file.messageAt? spot).bind fun message => message.enums[i]?

def elementAt? : Spot → Option SchemaElement
  | .package => some (.package file.package)
  | .message spot => (file.messageAt? spot).map .message
  | .field spot i => ((file.messageAt? spot).bind fun message => message.fields[i]?).map .field
  | .oneof spot i => ((file.messageAt? spot).bind fun message => message.oneofs[i]?).map .oneof
  | .enum spot => (file.enumAt? spot).map .enum
  | .value spot i => ((file.enumAt? spot).bind fun e => e.values[i]?).map .value
  | .service i => file.services[i]?.map .service
  | .method outer i => (file.services[outer]?.bind fun s => s.methods[i]?).map .method

end FileDecl

/-! ### Walks along paths -/

def repeatedType? (typeName : String) (number : Nat) : Option String :=
  ((Schema.types typeName).find? fun field => field.number == number && field.repeated).bind fun field =>
    match field.kind with
    | .message inner => some inner
    | _ => none

/-- Whether a path leads from a message of one type to a message of another. -/
inductive Walk : String → Fields → SourcePath → String → Fields → Prop
  | here {typeName : String} {fields : Fields} : Walk typeName fields [] typeName fields
  | step {typeName inner last : String} {fields next target : Fields} {rest : SourcePath} {number i : Nat}
      (hType : repeatedType? typeName number = some inner)
      (hNext : (fields.messages number)[i]? = some next) (hRest : Walk inner next rest last target) :
      Walk typeName fields ((number : Int) :: (i : Int) :: rest) last target

/-- Whether an element is what the fields of a message of a type say. -/
inductive SchemaElement.ReadFrom : String → Fields → SchemaElement → Prop
  | message {depth : Nat} {fields : Fields} :
      ReadFrom "DescriptorProto" fields (.message (.ofFields depth fields))
  | field {fields : Fields} : ReadFrom "FieldDescriptorProto" fields (.field (.ofFields fields))
  | oneof {fields : Fields} : ReadFrom "OneofDescriptorProto" fields (.oneof (.ofFields fields))
  | enum {fields : Fields} : ReadFrom "EnumDescriptorProto" fields (.enum (.ofFields fields))
  | value {fields : Fields} : ReadFrom "EnumValueDescriptorProto" fields (.value (.ofFields fields))
  | service {fields : Fields} : ReadFrom "ServiceDescriptorProto" fields (.service (.ofFields fields))
  | method {fields : Fields} : ReadFrom "MethodDescriptorProto" fields (.method (.ofFields fields))

/-- Whether a path leads from the fields of a file to an element: to its second field, a text, or along a
walk to a message that says what the element is. -/
inductive Leads (raw : Fields) : SourcePath → SchemaElement → Prop
  | package : Leads raw [2] (.package (raw.string 2))
  | walk {path : SourcePath} {typeName : String} {fields : Fields} {element : SchemaElement}
      (hWalk : Walk "FileDescriptorProto" raw path typeName fields)
      (hRead : element.ReadFrom typeName fields) : Leads raw path element

theorem Walk.append {typeName inner last : String} {fields next target : Fields} {front back : SourcePath}
    (h : Walk typeName fields front inner next) (hBack : Walk inner next back last target) :
    Walk typeName fields (front ++ back) last target := by
  induction h with
  | here => exact hBack
  | step hType hNext _ ih => exact .step hType hNext (ih hBack)

theorem Walk.one {typeName inner : String} {fields next : Fields} {number i : Nat}
    (hType : repeatedType? typeName number = some inner)
    (hNext : (fields.messages number)[i]? = some next) :
    Walk typeName fields [(number : Int), (i : Int)] inner next :=
  .step hType hNext .here

section

variable (depth : Nat) (fields : Fields)

theorem fields_ofFields :
    (MessageDecl.ofFields depth fields).fields = (fields.messages 2).map .ofFields := by
  cases depth <;> rfl

theorem enums_ofFields :
    (MessageDecl.ofFields depth fields).enums = (fields.messages 4).map .ofFields := by
  cases depth <;> rfl

theorem oneofs_ofFields :
    (MessageDecl.ofFields depth fields).oneofs = (fields.messages 8).map .ofFields := by
  cases depth <;> rfl

end

theorem exists_of_getElem?_map {α β : Type} {f : α → β} {items : List α} {i : Nat} {b : β}
    (h : (items.map f)[i]? = some b) : ∃ a, items[i]? = some a ∧ b = f a := by
  rw [List.getElem?_map] at h
  obtain ⟨a, hA, rfl⟩ := Option.map_eq_some_iff.mp h
  exact ⟨a, hA, rfl⟩

/-- A message that stands so far down is read where its path leads. -/
theorem walk_within {depth : Nat} {fields : Fields} {nested : List Nat} {decl : MessageDecl}
    (h : (MessageDecl.ofFields depth fields).within? nested = some decl) :
    ∃ inner target, Walk "DescriptorProto" fields (descent nested) "DescriptorProto" target ∧
      decl = .ofFields inner target := by
  induction nested generalizing depth fields with
  | nil => exact ⟨depth, fields, .here, (Option.some.inj h).symm⟩
  | cons i rest ih =>
    obtain ⟨message, hMessage, hRest⟩ := Option.bind_eq_some_iff.mp h
    cases depth with
    | zero => cases hMessage
    | succ depth =>
      obtain ⟨next, hNext, rfl⟩ := exists_of_getElem?_map hMessage
      obtain ⟨inner, target, hWalk, hDecl⟩ := ih hRest
      exact ⟨inner, target, .step (by rfl) hNext hWalk, hDecl⟩

section

variable {raw : Fields}

theorem walk_message {spot : MessageSpot} {decl : MessageDecl}
    (h : (FileDecl.ofFields raw).messageAt? spot = some decl) :
    ∃ depth target, Walk "FileDescriptorProto" raw spot.path "DescriptorProto" target ∧
      decl = .ofFields depth target := by
  obtain ⟨message, hMessage, hWithin⟩ := Option.bind_eq_some_iff.mp h
  obtain ⟨next, hNext, rfl⟩ := exists_of_getElem?_map hMessage
  obtain ⟨depth, target, hWalk, hDecl⟩ := walk_within hWithin
  refine ⟨depth, target, ?_, hDecl⟩
  rw [MessageSpot.path_eq]
  exact .step (by rfl) hNext hWalk

theorem walk_enum {spot : EnumSpot} {decl : EnumDecl}
    (h : (FileDecl.ofFields raw).enumAt? spot = some decl) :
    ∃ target, Walk "FileDescriptorProto" raw spot.path "EnumDescriptorProto" target ∧
      decl = .ofFields target := by
  cases spot with
  | outermost i =>
    obtain ⟨next, hNext, rfl⟩ := exists_of_getElem?_map h
    exact ⟨next, .one (by rfl) hNext, rfl⟩
  | within spot i =>
    obtain ⟨message, hMessage, hEnum⟩ := Option.bind_eq_some_iff.mp h
    obtain ⟨depth, target, hWalk, rfl⟩ := walk_message hMessage
    obtain ⟨next, hNext, rfl⟩ := exists_of_getElem?_map (enums_ofFields depth target ▸ hEnum)
    exact ⟨next, hWalk.append (.one (by rfl) hNext), rfl⟩

/-- The path of a spot leads to the element that stands there. -/
theorem leads_path {spot : Spot} {element : SchemaElement}
    (h : (FileDecl.ofFields raw).elementAt? spot = some element) : Leads raw spot.path element := by
  cases spot with
  | package =>
    cases h
    exact .package
  | message spot =>
    obtain ⟨decl, hDecl, rfl⟩ := Option.map_eq_some_iff.mp h
    obtain ⟨depth, target, hWalk, rfl⟩ := walk_message hDecl
    exact .walk hWalk .message
  | field spot i =>
    obtain ⟨decl, hDecl, rfl⟩ := Option.map_eq_some_iff.mp h
    obtain ⟨message, hMessage, hField⟩ := Option.bind_eq_some_iff.mp hDecl
    obtain ⟨depth, target, hWalk, rfl⟩ := walk_message hMessage
    obtain ⟨next, hNext, rfl⟩ := exists_of_getElem?_map (fields_ofFields depth target ▸ hField)
    exact .walk (hWalk.append (.one (by rfl) hNext)) .field
  | oneof spot i =>
    obtain ⟨decl, hDecl, rfl⟩ := Option.map_eq_some_iff.mp h
    obtain ⟨message, hMessage, hOneof⟩ := Option.bind_eq_some_iff.mp hDecl
    obtain ⟨depth, target, hWalk, rfl⟩ := walk_message hMessage
    obtain ⟨next, hNext, rfl⟩ := exists_of_getElem?_map (oneofs_ofFields depth target ▸ hOneof)
    exact .walk (hWalk.append (.one (by rfl) hNext)) .oneof
  | enum spot =>
    obtain ⟨decl, hDecl, rfl⟩ := Option.map_eq_some_iff.mp h
    obtain ⟨target, hWalk, rfl⟩ := walk_enum hDecl
    exact .walk hWalk .enum
  | value spot i =>
    obtain ⟨decl, hDecl, rfl⟩ := Option.map_eq_some_iff.mp h
    obtain ⟨e, hEnum, hValue⟩ := Option.bind_eq_some_iff.mp hDecl
    obtain ⟨target, hWalk, rfl⟩ := walk_enum hEnum
    obtain ⟨next, hNext, rfl⟩ := exists_of_getElem?_map hValue
    exact .walk (hWalk.append (.one (by rfl) hNext)) .value
  | service i =>
    obtain ⟨decl, hDecl, rfl⟩ := Option.map_eq_some_iff.mp h
    obtain ⟨next, hNext, rfl⟩ := exists_of_getElem?_map hDecl
    exact .walk (.one (by rfl) hNext) .service
  | method outer i =>
    obtain ⟨decl, hDecl, rfl⟩ := Option.map_eq_some_iff.mp h
    obtain ⟨s, hService, hMethod⟩ := Option.bind_eq_some_iff.mp hDecl
    obtain ⟨target, hTarget, rfl⟩ := exists_of_getElem?_map hService
    obtain ⟨next, hNext, rfl⟩ := exists_of_getElem?_map hMethod
    exact .walk ((Walk.one (by rfl) hTarget).append (.one (by rfl) hNext)) .method

end

/-! ### Nodes at spots -/

mutual

/-- The nodes of a message are the messages that stand somewhere in it, each with its path. -/
theorem mem_messageTree_iff (package : String) : ∀ (message : MessageDecl) (outer : List String)
    (path : SourcePath) (parent : Option SourcePath) (siblings : List FieldDecl) (target : SourcePath)
    (decl : MessageDecl),
    (∃ node ∈ messageTree package outer path parent siblings message,
        node.path = target ∧ node.decl = decl) ↔
      ∃ nested, target = path ++ descent nested ∧ message.within? nested = some decl
  | .mk name fields nested enums oneofs extensions extensionRanges reservedRanges mapEntry deprecated
      options, outer, path, parent, siblings, target, decl => by
    rw [messageTree]
    constructor
    · rintro ⟨node, hNode, rfl, rfl⟩
      rcases List.mem_cons.mp hNode with rfl | hNode
      · exact ⟨[], (List.append_nil path).symm, rfl⟩
      · obtain ⟨i, rest, hPath, hDecl⟩ := (mem_nestedTrees_iff package nested (outer ++ [name]) path fields
          0 node.path node.decl).mp ⟨node, hNode, rfl, rfl⟩
        rw [Nat.zero_add, SourcePath.nested, List.append_assoc] at hPath
        exact ⟨i :: rest, hPath, hDecl⟩
    · rintro ⟨down, rfl, hDecl⟩
      cases down with
      | nil =>
        cases hDecl
        exact ⟨_, List.mem_cons_self, (List.append_nil path).symm, rfl⟩
      | cons i rest =>
        have hPath : path ++ descent (i :: rest) = path.nested (0 + i) ++ descent rest := by
          rw [Nat.zero_add, SourcePath.nested, List.append_assoc]
          rfl
        obtain ⟨node, hNode, hSame⟩ := (mem_nestedTrees_iff package nested (outer ++ [name]) path fields
          0 _ decl).mpr ⟨i, rest, hPath, hDecl⟩
        exact ⟨node, List.mem_cons_of_mem _ hNode, hSame⟩

theorem mem_nestedTrees_iff (package : String) : ∀ (messages : List MessageDecl) (outer : List String)
    (path : SourcePath) (siblings : List FieldDecl) (start : Nat) (target : SourcePath)
    (decl : MessageDecl),
    (∃ node ∈ nestedTrees package outer path siblings start messages,
        node.path = target ∧ node.decl = decl) ↔
      ∃ i nested, target = path.nested (start + i) ++ descent nested ∧
        messages[i]?.bind (MessageDecl.within? nested) = some decl
  | [], outer, path, siblings, start, target, decl => by
    constructor
    · rintro ⟨node, hNode, -⟩
      cases hNode
    · rintro ⟨i, nested, -, hDecl⟩
      cases hDecl
  | message :: rest, outer, path, siblings, start, target, decl => by
    have hFirst := mem_messageTree_iff package message outer (path.nested start) (some path) siblings
      target decl
    have hRest := mem_nestedTrees_iff package rest outer path siblings (start + 1) target decl
    rw [nestedTrees]
    constructor
    · rintro ⟨node, hNode, hSame⟩
      rcases List.mem_append.mp hNode with hNode | hNode
      · obtain ⟨nested, hPath, hDecl⟩ := hFirst.mp ⟨node, hNode, hSame⟩
        exact ⟨0, nested, hPath, hDecl⟩
      · obtain ⟨i, nested, hPath, hDecl⟩ := hRest.mp ⟨node, hNode, hSame⟩
        refine ⟨i + 1, nested, ?_, hDecl⟩
        rw [hPath, Nat.add_assoc, Nat.add_comm 1]
    · rintro ⟨i, nested, hPath, hDecl⟩
      cases i with
      | zero =>
        obtain ⟨node, hNode, hSame⟩ := hFirst.mpr ⟨nested, hPath, hDecl⟩
        exact ⟨node, List.mem_append_left _ hNode, hSame⟩
      | succ i =>
        have hShift : target = path.nested (start + 1 + i) ++ descent nested := by
          rw [hPath, Nat.add_assoc, Nat.add_comm 1]
        obtain ⟨node, hNode, hSame⟩ := hRest.mpr ⟨i, nested, hShift, hDecl⟩
        exact ⟨node, List.mem_append_right _ hNode, hSame⟩

end

/-- The message nodes of a file are the messages at its spots, each with the path of its spot. -/
theorem mem_messageNodes_iff (file : FileDecl) (path : SourcePath) (decl : MessageDecl) :
    (∃ node ∈ file.messageNodes, node.path = path ∧ node.decl = decl) ↔
      ∃ spot : MessageSpot, path = spot.path ∧ file.messageAt? spot = some decl := by
  unfold FileDecl.messageNodes
  constructor
  · rintro ⟨node, hNode, hSame⟩
    obtain ⟨tree, hTree, hNode⟩ := List.mem_flatten.mp hNode
    obtain ⟨i, hi, rfl⟩ := List.mem_mapIdx.mp hTree
    obtain ⟨nested, hPath, hDecl⟩ :=
      (mem_messageTree_iff file.package file.messages[i] [] _ none [] path decl).mp ⟨node, hNode, hSame⟩
    refine ⟨⟨i, nested⟩, ?_, ?_⟩
    · rw [hPath, MessageSpot.path_eq]
      rfl
    · rw [FileDecl.messageAt?, List.getElem?_eq_getElem hi]
      exact hDecl
  · rintro ⟨⟨i, nested⟩, rfl, hDecl⟩
    obtain ⟨message, hMessage, hWithin⟩ := Option.bind_eq_some_iff.mp hDecl
    obtain ⟨hi, rfl⟩ := List.getElem?_eq_some_iff.mp hMessage
    obtain ⟨node, hNode, hSame⟩ :=
      (mem_messageTree_iff file.package file.messages[i] [] (SourcePath.message i) none []
        (MessageSpot.path ⟨i, nested⟩) decl).mpr ⟨nested, MessageSpot.path_eq ⟨i, nested⟩, hWithin⟩
    exact ⟨node, List.mem_flatten.mpr ⟨_, List.mem_mapIdx.mpr ⟨i, hi, rfl⟩, hNode⟩, hSame⟩

/-- The enum nodes of a file are the enums at its spots, each with the path of its spot. -/
theorem mem_enumNodes_iff (file : FileDecl) (path : SourcePath) (decl : EnumDecl) :
    (∃ node ∈ file.enumNodes, node.path = path ∧ node.decl = decl) ↔
      ∃ spot : EnumSpot, path = spot.path ∧ file.enumAt? spot = some decl := by
  unfold FileDecl.enumNodes
  constructor
  · rintro ⟨node, hNode, rfl, rfl⟩
    rcases List.mem_append.mp hNode with hNode | hNode
    · obtain ⟨i, hi, rfl⟩ := List.mem_mapIdx.mp hNode
      exact ⟨.outermost i, rfl, List.getElem?_eq_getElem hi⟩
    · obtain ⟨message, hMessage, hNode⟩ := List.mem_flatMap.mp hNode
      obtain ⟨i, hi, rfl⟩ := List.mem_mapIdx.mp hNode
      obtain ⟨spot, hPath, hDecl⟩ := (mem_messageNodes_iff file message.path message.decl).mp
        ⟨message, hMessage, rfl, rfl⟩
      refine ⟨.within spot i, by rw [hPath]; rfl, ?_⟩
      rw [FileDecl.enumAt?, hDecl, Option.bind_some, List.getElem?_eq_getElem hi]
  · rintro ⟨spot, rfl, hDecl⟩
    cases spot with
    | outermost i =>
      obtain ⟨hi, rfl⟩ := List.getElem?_eq_some_iff.mp hDecl
      exact ⟨_, List.mem_append_left _ (List.mem_mapIdx.mpr ⟨i, hi, rfl⟩), rfl, rfl⟩
    | within spot i =>
      obtain ⟨decl', hMessage, hEnum⟩ := Option.bind_eq_some_iff.mp hDecl
      obtain ⟨message, hNode, hPath, rfl⟩ := (mem_messageNodes_iff file spot.path decl').mpr
        ⟨spot, rfl, hMessage⟩
      obtain ⟨hi, rfl⟩ := List.getElem?_eq_some_iff.mp hEnum
      refine ⟨_, List.mem_append_right _ (List.mem_flatMap.mpr ⟨message, hNode,
        List.mem_mapIdx.mpr ⟨i, hi, rfl⟩⟩), ?_, rfl⟩
      rw [hPath]
      rfl

end ProtoBind
