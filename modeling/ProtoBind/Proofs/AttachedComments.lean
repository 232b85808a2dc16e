import ProtoBind.Proofs.AllOrNothing
import ProtoBind.Proofs.FieldComments
import ProtoBind.Proofs.PreparedGraph
import ProtoBind.Proofs.SourceElements

/-!
# Comments on elements

Each element of a schema file is emitted with the comment that belongs to it: that of the last location
with its path that has one. No other element has this path, and the numbers in it lead from the file to
the element.
-/

set_option autoImplicit false

namespace ProtoBind

open Naming Emit Text Wire

/-! ### Comments of a file -/

namespace FileDecl

variable (file : FileDecl)

/-- The comments of the locations with a path, where a location may have none. -/
def commentsAt (path : SourcePath) : List (Option String) :=
  (file.locations.filter fun location => location.path = path).map (·.leading)

def leading? (path : SourcePath) : Option String := ((file.commentsAt path).filterMap id).getLast?

def lastLeading? (path : SourcePath) : Option String := (file.commentsAt path).getLast?.join

end FileDecl

/-- The comment that is looked up by the text of a path is the one at the path. -/
theorem comment?_eq (file : FileNode) (path : SourcePath) : file.comment? path = file.decl.leading? path := by
  rw [FileNode.comment?, FileNode.commentAt?, FileDecl.leading?, FileDecl.commentsAt, List.filterMap_map,
    List.filterMap_filter]
  congr 2
  funext location
  by_cases hPath : location.path = path
  · simp [hPath]
  · have hKey : ¬ SourcePath.key location.path = path.key :=
      fun hSame => hPath (SourcePath.key_injective hSame)
    simp [hPath, hKey]

/-! ### Comments in front of a text -/

namespace Emit

def Line.isDoc : Line → Bool
  | .doc .. => true
  | _ => false

def docsOf (lines : List Line) : List Line := lines.takeWhile Line.isDoc

theorem isDoc_docLines (comment : Option String) : ∀ line ∈ docLines comment, line.isDoc = true := by
  intro line hLine
  cases comment with
  | none => cases hLine
  | some text =>
    obtain ⟨words, -, rfl⟩ := List.mem_map.mp hLine
    rfl

theorem isDoc_documentation (comment : Option String) (deprecated : Bool) :
    ∀ line ∈ documentation comment deprecated, line.isDoc = true := by
  intro line hLine
  unfold documentation at hLine
  cases deprecated with
  | false => exact isDoc_docLines comment line hLine
  | true =>
    simp only [if_true, List.mem_append, List.mem_singleton] at hLine
    rcases hLine with (hLine | hLine) | rfl
    · exact isDoc_docLines comment line hLine
    · split at hLine
      · rw [List.mem_singleton.mp hLine]
        rfl
      · cases hLine
    · rfl

theorem docsOf_append {front : List Line} (h : ∀ line ∈ front, line.isDoc = true) (rest : List Line) :
    docsOf (front ++ rest) = front ++ docsOf rest :=
  List.takeWhile_append_of_pos h

/-- What a text begins with is its comment, if code stands behind it. -/
theorem docsOf_documentation (comment : Option String) (deprecated : Bool) (text : String)
    (rest : List Line) :
    docsOf (documentation comment deprecated ++ code text :: rest) = documentation comment deprecated := by
  rw [docsOf_append (isDoc_documentation comment deprecated)]
  exact List.append_nil _

end Emit

/-! ### What is emitted of a file -/

section

variable (say : Spot → Option String)

def oneofComment (spot : MessageSpot) (index : Int) : Option String :=
  if 0 ≤ index then say (.oneof spot index.toNat) else none

/-- The fields of a message with one home, each with its place among all fields. -/
def MessageDecl.fieldsOf (decl : MessageDecl) (home : Option Int) : List (FieldDecl × Nat) :=
  decl.fields.zipIdx.filter fun (field, _) => field.home = home

/-- Whether a structure has the comments on a message and its fields, and does with its fields what their
comments ask for. -/
structure StructSays (spot : MessageSpot) (decl : MessageDecl) (names : LocalNames) (s : Struct) : Prop where
  itself : docsOf (s.lines names) = documentation (say (.message spot)) decl.isDeprecated
    ++ if s.group then [.doc 0 Struct.groupNote] else []
  plain : (plains s.fields).map (fun field => (field.wireName, docsOf (field.lines names), field.omitEmpty))
    = (decl.fieldsOf none).map fun (field, i) => (field.jsonName.getD field.name,
      documentation (say (.field spot i)) field.deprecated,
      (Directives.ofComment? (say (.field spot i))).omitempty)
  oneof : ∀ o ∈ oneofs s.fields, docsOf o.lines = documentation (oneofComment say spot o.index) false
  members : ∀ o ∈ oneofs s.fields,
    o.members.map (fun member => (member.wireName, docsOf (member.variantLines names)))
      = (decl.fieldsOf (some o.index)).map fun (field, i) => (field.jsonName.getD field.name,
        documentation (say (.field spot i)) field.deprecated)
  covered : ∀ field ∈ decl.fields, ∀ index, field.home = some index →
    ∃ o ∈ oneofs s.fields, o.index = index
  distinct : ((oneofs s.fields).map (·.index)).Nodup

def constantPieces (file : FileNode) (e : EnumNode) : List (List Line) :=
  (e.decl.values.zip e.constants).zipIdx.map fun (value, i) =>
    EnumLines.constant file e (typePathName e.typeName) i value.1 value.2

/-- Whether the text for an enum has the comments on the enum and its values. -/
structure EnumSays (spot : EnumSpot) (decl : EnumDecl) (file : FileNode) (e : EnumNode) : Prop where
  itself : docsOf (enumLines file e) = documentation (say (.enum spot)) decl.deprecated
  pieces : EnumLines.constants file e (typePathName e.typeName) 0 (e.decl.values.zip e.constants)
    = (constantPieces file e).flatten
  values : (constantPieces file e).map docsOf
    = decl.values.zipIdx.map fun (value, i) => documentation (say (.value spot i)) value.deprecated

/-- Whether an API has the comments on a service and its methods, and follows the directives in those on
the methods. -/
structure ServiceSays (i : Nat) (decl : ServiceDecl) (names : LocalNames) (s : Service) : Prop where
  itself : docsOf (s.traitLines names) = documentation (say (.service i)) decl.deprecated
  methods : s.endpoints.map (fun e => (docsOf (e.handlerLines names), e.directives))
    = decl.methods.zipIdx.map fun (_, j) =>
      (docLines (say (.method i j)), .ofComment? (say (.method i j)))

/-- What an emitted file begins with: the banner, the schema file, and what that says of itself. -/
def headerOf (file : FileDecl) : List Line :=
  [.innerDoc banner,
    .innerDoc (if file.deprecated then file.name ++ " is a deprecated file." else "source: " ++ file.name)]
    ++ (match say .package with
      | none => []
      | some comment => .innerDoc "" :: (commentLines comment).map .innerDoc)
    ++ [.blank]

/-- Whether a model has the comments on a file, on all enums in it and on all messages but map entries. -/
structure ModelSays (file : FileDecl) (model : ModelFile) : Prop where
  header : header model.file = headerOf say file
  enums : ∃ spots, (∀ spot, spot ∈ spots ↔ (file.enumAt? spot).isSome) ∧
    List.Forall₂ (fun spot e => ∃ decl, file.enumAt? spot = some decl ∧
      EnumSays say spot decl model.file e) spots model.enums
  structs : ∃ spots,
    (∀ spot, spot ∈ spots ↔ ∃ decl, file.messageAt? spot = some decl ∧ decl.isMapEntry = false) ∧
    List.Forall₂ (fun spot s => ∃ decl, file.messageAt? spot = some decl ∧
      StructSays say spot decl model.names s) spots model.structs

/-- Whether an API has the comments on a file and on all services in it. -/
structure ApiSays (file : FileDecl) (api : ApiFile) : Prop where
  header : header api.file = headerOf say file
  services : List.Forall₂ (fun (decl, i) s => ServiceSays say i decl api.names s) file.services.zipIdx
    api.services

end

def FileDecl.commentOn (file : FileDecl) (spot : Spot) : Option String := file.leading? spot.path

section

variable {file : FileNode}

theorem comment?_path (spot : Spot) : file.comment? spot.path = file.decl.commentOn spot :=
  comment?_eq file spot.path

theorem header_eq_headerOf : header file = headerOf file.decl.commentOn file.decl := by
  calc header file = headerOf (fun spot => file.comment? spot.path) file.decl := rfl
    _ = headerOf file.decl.commentOn file.decl := congrArg (headerOf · file.decl) (funext comment?_path)

/-! ### Models -/

theorem oneofComment?_eq {message : MessageNode} {spot : MessageSpot} (hPath : message.path = spot.path)
    (index : Int) : oneofComment? file message index = oneofComment file.decl.commentOn spot index := by
  unfold oneofComment? oneofComment
  split
  · rw [hPath]
    exact comment?_path (.oneof spot index.toNat)
  · rfl

/-- Typed fields of one home are noted as the fields that they are made of. -/
theorem notesOf_typedFields {scope : Scope} {spot : MessageSpot} {decl : MessageDecl}
    {typed : List TypedField} (h : scope.typedFields spot.path 0 decl.fields = .ok typed)
    (home : Option Int) :
    notesOf home typed = (decl.fieldsOf home).map fun (field, i) =>
      field.note (scope.file.decl.commentOn (.field spot i)) := by
  have hPairs := Scope.notes_of_typedFields h
  have hSplit : notesOf home typed
      = ((typed.map fun field => (field.role.home, field.note)).filter fun pair => pair.1 = home).map
        (·.2) := by
    rw [notesOf, List.filter_map, List.map_map]
    rfl
  rw [hSplit, hPairs, List.filter_map, List.map_map, MessageDecl.fieldsOf]
  refine List.map_congr_left ?_
  rintro ⟨field, i⟩ -
  exact congrArg field.note (comment?_path (.field spot i))

theorem structSays {scope : Scope} {message : TypedMessage} {s : Struct} {spot : MessageSpot}
    (hPath : message.node.path = spot.path)
    (hFields : scope.typedFields message.node.path 0 message.node.decl.fields = .ok message.fields)
    (h : StructOf scope.file message s) (names : LocalNames) :
    StructSays scope.file.decl.commentOn spot message.node.decl names s := by
  rw [hPath] at hFields
  have hNotes := notesOf_typedFields hFields
  constructor
  case itself =>
    have hComment : s.comment = scope.file.decl.commentOn (.message spot) := by
      rw [h.comment, hPath]
      exact comment?_path (.message spot)
    rw [Struct.lines, ← hComment, ← h.deprecated]
    simp only [List.append_assoc]
    rw [docsOf_append (isDoc_documentation _ _)]
    split
    · rfl
    · rfl
  case plain =>
    have hFound := congrArg (List.map fun note : Note => (note.wireName,
      documentation note.comment note.deprecated, (Directives.ofComment? note.comment).omitempty))
      (h.fields.plain.trans (hNotes none))
    rw [List.map_map, List.map_map] at hFound
    refine Eq.trans (List.map_congr_left ?_) (hFound.trans (List.map_congr_left fun _ _ => rfl))
    intro field hField
    rw [h.fields.omitted field hField, PlainField.lines, docsOf_documentation]
    rfl
  case oneof =>
    intro o hO
    rw [OneofField.lines, docsOf_documentation, h.fields.remarks o hO, oneofComment?_eq hPath]
  case members =>
    intro o hO
    have hFound := congrArg (List.map fun note : Note => (note.wireName,
      documentation note.comment note.deprecated)) ((h.fields.members o hO).trans (hNotes _))
    rw [List.map_map, List.map_map] at hFound
    refine Eq.trans (List.map_congr_left ?_) (hFound.trans (List.map_congr_left fun _ _ => rfl))
    intro member _
    rw [Member.variantLines, docsOf_documentation]
    rfl
  case covered =>
    intro field hField index hHome
    obtain ⟨i, hi, hAt⟩ := List.getElem_of_mem hField
    have hMem : (some index, field.note (scope.file.comment? (spot.path.field i)))
        ∈ message.fields.map fun field => (field.role.home, field.note) := by
      rw [Scope.notes_of_typedFields hFields, List.mem_map]
      refine ⟨(field, i), ?_, Prod.ext hHome rfl⟩
      rw [List.mem_zipIdx_iff_getElem?, ← hAt]
      exact List.getElem?_eq_getElem hi
    obtain ⟨typed, hTyped, hSame⟩ := List.mem_map.mp hMem
    exact h.fields.covered typed hTyped index (congrArg Prod.fst hSame)
  case distinct => exact h.fields.distinct

theorem constants_eq (file : FileNode) (e : EnumNode) (name : String) (start : Nat)
    (values : List (EnumValueDecl × String)) :
    EnumLines.constants file e name start values
      = ((values.zipIdx start).map fun (value, i) =>
        EnumLines.constant file e name i value.1 value.2).flatten := by
  induction values generalizing start with
  | nil => rfl
  | cons value rest ih =>
    obtain ⟨value, constantName⟩ := value
    rw [EnumLines.constants, ih, List.zipIdx_cons, List.map_cons, List.flatten_cons]

theorem enumSays {e : EnumNode} {spot : EnumSpot} (hPath : e.path = spot.path)
    (hConstants : e.constants.length = e.decl.values.length) :
    EnumSays file.decl.commentOn spot e.decl file e := by
  constructor
  case itself =>
    have hComment : file.comment? spot.path = file.decl.commentOn (.enum spot) := comment?_path (.enum spot)
    rw [enumLines, hPath, hComment]
    simp only [List.append_assoc]
    rw [docsOf_append (isDoc_documentation _ _)]
    exact List.append_nil _
  case pieces => exact constants_eq file e _ 0 _
  case values =>
    have hValues : e.decl.values = (e.decl.values.zip e.constants).map (·.1) :=
      (List.map_fst_zip (Nat.le_of_eq hConstants.symm)).symm
    rw [constantPieces, List.map_map]
    conv_rhs => rw [hValues, List.zipIdx_map, List.map_map]
    refine List.map_congr_left ?_
    rintro ⟨⟨value, name⟩, i⟩ -
    change docsOf (EnumLines.constant file e _ i value name) = documentation _ value.deprecated
    rw [EnumLines.constant, docsOf_documentation, hPath]
    exact congrArg (documentation · value.deprecated) (comment?_path (.value spot i))

end

end ProtoBind
