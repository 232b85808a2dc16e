import Mathlib.Data.List.Dedup
import ProtoBind.Proofs.AssemblySteps
import ProtoBind.Proofs.CodeTexts
import ProtoBind.Proofs.DistinctTypes
import ProtoBind.Proofs.GivenNames
import ProtoBind.Proofs.LineWords

/-!
# Names of fields

The fields of a structure and the methods that return the members of its oneofs get their names from one
allocation, which keeps them apart. The words that have no raw form get an underscore behind them afterwards,
and that can bring two fields together again.
-/

set_option autoImplicit false

namespace ProtoBind

open Naming Text

namespace Naming

/-! ### Identifiers -/

theorem raw_ne {name word : String} (h : '#' ∉ word.toList) : "r#" ++ name ≠ word := by
  rintro rfl
  apply h
  rw [String.toList_append]
  exact List.mem_append_left _ (by decide)

theorem rootWord_extended : ∀ word ∈ rootWords, word ++ "_" ∉ rootWords ∧ isKeyword (word ++ "_") = false := by
  decide

theorem fieldIdentifier_of_root {word : String} (h : word ∈ rootWords) : fieldIdentifier word = word ++ "_" :=
  if_pos h

theorem fieldIdentifier_extended {word : String} (h : word ∈ rootWords) :
    fieldIdentifier (word ++ "_") = word ++ "_" := by
  obtain ⟨hRoot, hKeyword⟩ := rootWord_extended word h
  rw [fieldIdentifier, if_neg hRoot, hKeyword]
  rfl

/-- Besides a word without raw form and itself with an underscore, different names have different identifiers. -/
theorem fieldIdentifier_inj {a b : String} (hA : '#' ∉ a.toList) (hB : '#' ∉ b.toList)
    (h : fieldIdentifier a = fieldIdentifier b) :
    a = b ∨ (a ∈ rootWords ∧ b = a ++ "_") ∨ (b ∈ rootWords ∧ a = b ++ "_") := by
  have hUnderscore : '#' ∉ "_".toList := by decide
  have hExtended : ∀ name : String, '#' ∉ name.toList → '#' ∉ (name ++ "_").toList := by
    intro name hName
    rw [String.toList_append, List.mem_append, not_or]
    exact ⟨hName, hUnderscore⟩
  unfold fieldIdentifier at h
  split at h
  · rename_i hRootA
    split at h
    · exact .inl ((String.append_left_inj "_").mp h)
    split at h
    · exact absurd h.symm (raw_ne (hExtended a hA))
    · exact .inr (.inl ⟨hRootA, h.symm⟩)
  split at h
  · split at h
    · exact absurd h (raw_ne (hExtended b hB))
    split at h
    · exact .inl ((String.append_right_inj "r#").mp h)
    · exact absurd h (raw_ne hB)
  · split at h
    · rename_i hRootB
      exact .inr (.inr ⟨hRootB, h⟩)
    split at h
    · exact absurd h.symm (raw_ne hA)
    · exact .inl h

theorem nodup_fieldIdentifiers_iff {names : List String} (hNames : ∀ name ∈ names, '#' ∉ name.toList)
    (hDistinct : names.Nodup) :
    (names.map fieldIdentifier).Nodup ↔ ∀ word ∈ rootWords, word ∈ names → word ++ "_" ∉ names := by
  constructor
  · intro h word hRoot hWord hExtended
    have hSame : word = word ++ "_" := List.inj_on_of_nodup_map h hWord hExtended
      ((fieldIdentifier_of_root hRoot).trans (fieldIdentifier_extended hRoot).symm)
    exact absurd (String.append_eq_left_iff.mp hSame.symm) (by decide)
  · intro h
    refine hDistinct.map_on ?_
    intro a hA b hB hSame
    rcases fieldIdentifier_inj (hNames a hA) (hNames b hB) hSame with hEq | ⟨hRoot, rfl⟩ | ⟨hRoot, rfl⟩
    · exact hEq
    · exact absurd hB (h a hRoot hA)
    · exact absurd hA (h b hRoot hB)

end Naming

namespace Emit

/-! ### What is asked for -/

def Field.name : Field → String
  | .plain field => field.name
  | .oneof field => field.name

def getters (fields : List Field) : List String := (oneofs fields).flatMap fun o => o.members.map (·.getter)

def homes (typed : List TypedField) : List Int := typed.filterMap (·.role.home)

/-- The names that the fields of a structure ask for: one for each field that stands alone, and one for each
oneof that has members. -/
def slots (message : MessageNode) (typed : List TypedField) : List String :=
  ((ofHome none typed).map fun field => snake field.decl.name)
    ++ (homes typed).dedup.map fun index => snake (oneofName message index)

def asked (message : MessageNode) (typed : List TypedField) : List String :=
  ((typed.filter (·.role.home.isSome)).map getterRequest) ++ slots message typed

section

variable {message : MessageNode} {typed : List TypedField} {field : TypedField} {state : Assembly}

theorem homes_concat_of_none (h : field.role.home = none) : homes (typed ++ [field]) = homes typed := by
  simp [homes, h]

theorem homes_concat_of_some {index : Int} (h : field.role.home = some index) :
    homes (typed ++ [field]) = homes typed ++ [index] := by
  simp [homes, h]

theorem asked_concat_alone (h : field.role.home = none) :
    (asked message (typed ++ [field])).Perm (asked message typed ++ [snake field.decl.name]) := by
  have hMembers : (typed ++ [field]).filter (·.role.home.isSome) = typed.filter (·.role.home.isSome) := by
    simp [h]
  rw [asked, slots, hMembers, homes_concat_of_none h, ofHome_concat_of_eq h, List.map_append, asked, slots]
  simp only [List.append_assoc]
  refine .append_left _ (.append_left _ ?_)
  exact List.perm_append_comm

theorem dedup_concat_of_mem {index : Int} {indices : List Int} (h : index ∈ indices) :
    (indices ++ [index]).dedup.Perm indices.dedup := by
  rw [List.perm_ext_iff_of_nodup (List.nodup_dedup _) (List.nodup_dedup _)]
  intro other
  simp only [List.mem_dedup, List.mem_append, List.mem_singleton]
  constructor
  · rintro (hOld | rfl)
    · exact hOld
    · exact h
  · exact .inl

theorem dedup_concat_of_not_mem {index : Int} {indices : List Int} (h : index ∉ indices) :
    (indices ++ [index]).dedup.Perm (indices.dedup ++ [index]) := by
  have hNew : (indices.dedup ++ [index]).Nodup := by
    rw [List.nodup_append]
    refine ⟨List.nodup_dedup _, List.nodup_singleton _, ?_⟩
    intro a hA b hB hSame
    rw [List.mem_singleton.mp hB] at hSame
    exact h (hSame ▸ List.mem_dedup.mp hA)
  rw [List.perm_ext_iff_of_nodup (List.nodup_dedup _) hNew]
  simp

theorem asked_concat_member {index : Int} (h : field.role.home = some index) {more : List String}
    (hMore : ((homes (typed ++ [field])).dedup.map fun index => snake (oneofName message index)).Perm
      ((homes typed).dedup.map (fun index => snake (oneofName message index)) ++ more)) :
    (asked message (typed ++ [field])).Perm (asked message typed ++ (getterRequest field :: more)) := by
  have hMembers : (typed ++ [field]).filter (·.role.home.isSome) = typed.filter (·.role.home.isSome) ++ [field] := by
    simp [h]
  rw [asked, slots, hMembers, ofHome_concat_of_ne (by simp [h]), List.map_append, asked, slots]
  rw [List.perm_iff_count] at hMore ⊢
  intro word
  have hCount := hMore word
  rw [List.count_append] at hCount
  have hCons : getterRequest field :: more = [getterRequest field] ++ more := rfl
  simp only [List.count_append, List.map_singleton, hCount, hCons]
  omega

theorem asked_concat_joins {index : Int} (h : field.role.home = some index) (hKnown : index ∈ homes typed) :
    (asked message (typed ++ [field])).Perm (asked message typed ++ [getterRequest field]) := by
  refine asked_concat_member h ?_
  rw [homes_concat_of_some h, List.append_nil]
  exact (dedup_concat_of_mem hKnown).map _

theorem asked_concat_begins {index : Int} (h : field.role.home = some index) (hNew : index ∉ homes typed) :
    (asked message (typed ++ [field])).Perm
      (asked message typed ++ [getterRequest field, snake (oneofName message index)]) := by
  refine asked_concat_member h ?_
  rw [homes_concat_of_some h]
  exact ((dedup_concat_of_not_mem hNew).map _).trans (by rw [List.map_append]; rfl)

theorem mem_homes_iff {index : Int} : index ∈ homes typed ↔ some index ∈ typed.map (·.role.home) := by
  rw [homes, List.mem_filterMap, List.mem_map]

/-! ### What is given -/

/-- The names of the fields and the methods of a structure are those given out for what its fields ask for. -/
structure Allotted (message : MessageNode) (typed : List TypedField) (state : Assembly) : Prop where
  names : state.fieldNames.Perm (getters state.fields ++ state.fields.map Field.name)
  taken : ∃ requests, requests.Perm (asked message typed) ∧ state.fieldNames = given "_" requests
  methods : (getters state.fields).length = (typed.filter (·.role.home.isSome)).length

theorem name_addMember (index : Int) (member : Member) (field : Field) :
    (field.addMember index member).name = field.name := by
  cases field with
  | plain field => rfl
  | oneof field =>
    rw [Field.addMember]
    split <;> rfl

theorem withMember_of_ne {index : Int} (member : Member) {oneof : OneofField} (h : oneof.index ≠ index) :
    oneof.withMember index member = oneof := if_neg h

theorem getters_withMember {index : Int} (member : Member) {list : List OneofField}
    (hKnown : ∃ o ∈ list, o.index = index) (hDistinct : (list.map (·.index)).Nodup) :
    ((list.map (OneofField.withMember index member)).flatMap fun o => o.members.map (·.getter)).Perm
      (member.getter :: list.flatMap fun o => o.members.map (·.getter)) := by
  induction list with
  | nil => exact absurd hKnown (by simp)
  | cons o rest ih =>
    rw [List.map_cons, List.nodup_cons] at hDistinct
    rw [List.map_cons, List.flatMap_cons, List.flatMap_cons]
    by_cases hIndex : o.index = index
    · have hRest : rest.map (OneofField.withMember index member) = rest := by
        refine (List.map_congr_left ?_).trans (List.map_id rest)
        intro other hOther
        refine withMember_of_ne member fun hSame => hDistinct.1 ?_
        exact List.mem_map.mpr ⟨other, hOther, hSame.trans hIndex.symm⟩
      rw [hRest, OneofField.withMember, if_pos hIndex, List.map_append, List.append_assoc]
      exact List.perm_middle
    · have hLater : ∃ other ∈ rest, other.index = index := by
        obtain ⟨other, hOther, hSame⟩ := hKnown
        rcases List.mem_cons.mp hOther with rfl | hOther
        · exact absurd hSame hIndex
        · exact ⟨other, hOther, hSame⟩
      rw [withMember_of_ne member hIndex]
      exact ((ih hLater hDistinct.2).append_left _).trans List.perm_middle

theorem Allotted.step {file : FileNode} {next : Assembly} (hFront : Assembled file message typed state.fields)
    (hGathered : Gathered typed state.fields) (h : Allotted message typed state)
    (hStep : Step file message state field next) : Allotted message (typed ++ [field]) next := by
  obtain ⟨requests, hRequests, hTaken⟩ := h.taken
  cases hStep with
  | @alone shape name hRole hName =>
    have hHome : field.role.home = none := congrArg Role.home hRole
    constructor
    case names =>
      rw [getters, oneofs_concat_plain, List.map_append, ← List.append_assoc]
      exact (h.names.cons name).trans (List.perm_append_singleton _ _).symm
    case taken =>
      refine ⟨requests ++ [snake field.decl.name], ?_, ?_⟩
      · exact (hRequests.append_right _).trans (asked_concat_alone hHome).symm
      · rw [given_concat, ← hTaken, ← hName]
    case methods =>
      rw [getters, oneofs_concat_plain, List.filter_append, List.filter_cons_of_neg (by simp [hHome])]
      exact h.methods.trans (by simp)
  | @joins index element getter hRole hKnown hGetter =>
    have hHome : field.role.home = some index := congrArg Role.home hRole
    -- A later field of a oneof asks for a getter only.
    have hGetters := getters_withMember (field.asMember element getter) hKnown hFront.distinct
    constructor
    case names =>
      have hNames : (state.fields.map (Field.addMember index (field.asMember element getter))).map Field.name
          = state.fields.map Field.name := by
        rw [List.map_map]
        exact List.map_congr_left fun old _ => name_addMember index _ old
      rw [hNames, getters, oneofs_addMember]
      exact (h.names.cons getter).trans (hGetters.symm.append_right (state.fields.map Field.name))
    case taken =>
      refine ⟨requests ++ [getterRequest field], ?_, ?_⟩
      · refine (hRequests.append_right _).trans (asked_concat_joins hHome ?_).symm
        obtain ⟨o, hO, rfl⟩ := hKnown
        exact mem_homes_iff.mpr (hGathered.homes o hO)
      · rw [given_concat, ← hTaken, ← hGetter]
    case methods =>
      rw [getters, oneofs_addMember, hGetters.length_eq, List.length_cons, List.filter_append,
        List.filter_cons_of_pos (by simp [hHome]), List.length_append, ← h.methods]
      rfl
  | @begins index element getter name enumName hRole hNew hGetter hName hEnum =>
    have hHome : field.role.home = some index := congrArg Role.home hRole
    constructor
    case names =>
      rw [getters, oneofs_concat_oneof, List.flatMap_append, List.map_append]
      refine ((h.names.cons getter).cons name).trans ?_
      rw [List.perm_iff_count]
      intro word
      simp only [List.flatMap_singleton, List.map_singleton, List.count_append, List.count_cons, List.count_nil,
        Field.name, TypedField.asMember, getters]
      omega
    case taken =>
      -- The first field of a oneof asks for two names, that of its getter before that of the oneof.
      refine ⟨requests ++ [getterRequest field] ++ [snake (oneofName message index)], ?_, ?_⟩
      · rw [List.append_assoc]
        refine (hRequests.append_right _).trans (asked_concat_begins hHome ?_).symm
        intro hMem
        obtain ⟨other, hOther, hSame⟩ := List.mem_map.mp (mem_homes_iff.mp hMem)
        obtain ⟨o, hO, hIndex⟩ := hFront.covered other hOther index hSame
        exact hNew o hO hIndex
      · rw [given_concat, given_concat, ← hTaken, ← hGetter, ← hName]
    case methods =>
      rw [getters, oneofs_concat_oneof, List.flatMap_append, List.length_append, List.filter_append,
        List.filter_cons_of_pos (by simp [hHome]), List.length_append, ← h.methods]
      rfl

theorem allotted_assemble (file : FileNode) (message : MessageNode) (typeNames : List String)
    (typed : List TypedField) : Allotted message typed (assemble file message typeNames typed) := by
  have hBoth : Gathered typed (assemble file message typeNames typed).fields ∧
      Allotted message typed (assemble file message typeNames typed) := by
    refine assemble_induction (P := fun front state => Gathered front state.fields ∧ Allotted message front state)
      ?_ ?_ typed
    · exact ⟨gathered_assemble file message typeNames [], .refl _, ⟨[], .refl _, rfl⟩, rfl⟩
    · rintro front field state next hFront ⟨hGathered, hAllotted⟩ hStep
      exact ⟨hGathered.step hFront hStep, hAllotted.step hFront hGathered hStep⟩
  exact hBoth.2

theorem Allotted.nodup_names (h : Allotted message typed state) :
    (getters state.fields ++ state.fields.map Field.name).Nodup := by
  obtain ⟨requests, -, hTaken⟩ := h.taken
  rw [← h.names.nodup_iff, hTaken]
  exact nodup_given (by decide) requests

theorem length_fields (h : Allotted message typed state) : state.fields.length = (slots message typed).length := by
  obtain ⟨requests, hRequests, hTaken⟩ := h.taken
  have hNames := h.names.length_eq
  rw [hTaken, length_given, hRequests.length_eq, asked, List.length_append, List.length_map, ← h.methods,
    List.length_append, List.length_map] at hNames
  omega

/-! ### Names that are not those of methods -/

theorem begins_getterRequest (field : TypedField) : Begins "get_" (getterRequest field) := begins_append _ _

theorem count_asked {word : String} (h : ¬ Begins "get_" word) :
    (asked message typed).count word = (slots message typed).count word := by
  have hNone : ((typed.filter (·.role.home.isSome)).map getterRequest).count word = 0 := by
    refine List.count_eq_zero.mpr fun hMem => ?_
    obtain ⟨field, -, rfl⟩ := List.mem_map.mp hMem
    exact h (begins_getterRequest field)
  rw [asked, List.count_append, hNone, Nat.zero_add]

theorem isSchemaName_getter {name : String} (h : isSchemaName name = true) :
    isSchemaName ("get_" ++ snake name) = true :=
  isSchemaName_append (by decide) fun _ => isNameChar_of_mem (isSchemaName_snake h)

theorem exists_getterRequest {fields : List Field} (h : Gathered typed fields) :
    ∀ getter ∈ getters fields, ∃ field ∈ typed, ∃ n, getter = repeatedly "_" (getterRequest field) n := by
  intro getter hGetter
  obtain ⟨o, hO, hMembers⟩ := List.mem_flatMap.mp hGetter
  obtain ⟨member, hMember, rfl⟩ := List.mem_map.mp hMembers
  obtain ⟨field, hField, element, -, n, rfl⟩ := exists_of_forall₂_right (h.members o hO) member hMember
  exact ⟨field, (List.mem_filter.mp hField).1, n, rfl⟩

theorem begins_getter {fields : List Field} (h : Gathered typed fields) :
    ∀ getter ∈ getters fields, Begins "get_" getter := by
  intro getter hGetter
  obtain ⟨field, -, n, rfl⟩ := exists_getterRequest h getter hGetter
  obtain ⟨more, hMore, -⟩ := repeatedly_toList "_" (getterRequest field) n
  have hGrown : Begins (getterRequest field) (repeatedly "_" (getterRequest field) n) := ⟨more, hMore.symm⟩
  exact (begins_getterRequest field).trans hGrown

theorem rootWord_apart : ∀ word ∈ rootWords, ¬ Begins "get_" word ∧ ¬ Begins "get_" (word ++ "_") ∧
    (word.toList = ['_'] ∨ word.toList.getLast? ≠ some '_') := by
  decide

theorem bare_of_rootWord {word : String} (h : word ∈ rootWords) {name : String} (hName : isSchemaName name = true)
    (n : Nat) (hSame : repeatedly "_" name n = word) : n = 0 := by
  cases n with
  | zero => rfl
  | succ n =>
    exfalso
    have hList : word.toList = (repeatedly "_" name n).toList ++ ['_'] := by
      rw [← hSame, repeatedly, String.toList_append]
      rfl
    rcases (rootWord_apart word h).2.2 with hUnderscore | hLast
    · rw [hUnderscore] at hList
      rcases List.append_eq_singleton_iff.mp hList.symm with ⟨hNil, -⟩ | ⟨-, hNever⟩
      · exact ne_empty_of_isSchemaName (isSchemaName_repeatedly hName isNameChar_underscore n)
          (String.toList_eq_nil_iff.mp hNil)
      · cases hNever
    · rw [hList] at hLast
      simp at hLast

section

variable (hFields : ∀ field ∈ typed, isSchemaName field.decl.name = true)
  (hOneofs : ∀ index, isSchemaName (oneofName message index) = true)
include hFields hOneofs

theorem isSchemaName_asked : ∀ request ∈ asked message typed, isSchemaName request = true := by
  intro request hRequest
  rw [asked, slots, List.mem_append, List.mem_append] at hRequest
  rcases hRequest with hGetter | hPlain | hOneof
  · obtain ⟨field, hField, rfl⟩ := List.mem_map.mp hGetter
    exact isSchemaName_getter (hFields field (List.mem_filter.mp hField).1)
  · obtain ⟨field, hField, rfl⟩ := List.mem_map.mp hPlain
    exact isSchemaName_snake (hFields field (List.mem_filter.mp hField).1)
  · obtain ⟨index, -, rfl⟩ := List.mem_map.mp hOneof
    exact isSchemaName_snake (hOneofs index)

theorem isSchemaName_fieldNames (h : Allotted message typed state) :
    ∀ name ∈ state.fieldNames, isSchemaName name = true := by
  obtain ⟨requests, hRequests, hTaken⟩ := h.taken
  intro name hName
  rw [hTaken] at hName
  obtain ⟨request, hRequest, n, rfl⟩ := exists_request hName
  exact isSchemaName_repeatedly (isSchemaName_asked hFields hOneofs request (hRequests.mem_iff.mp hRequest))
    isNameChar_underscore n

/-- The identifiers of the fields of a structure differ, unless a word without raw form is asked for twice, or
beside itself with an underscore. -/
theorem nodup_identifiers_iff (h : Allotted message typed state) (hGathered : Gathered typed state.fields) :
    (state.fields.map fun field => fieldIdentifier field.name).Nodup ↔
      ∀ word ∈ rootWords, word ∈ slots message typed →
        (slots message typed).count word = 1 ∧ word ++ "_" ∉ slots message typed := by
  obtain ⟨requests, hRequests, hTaken⟩ := h.taken
  have hDistinct : (state.fields.map Field.name).Nodup := (List.nodup_append.mp h.nodup_names).2.1
  have hRaw : ∀ name ∈ state.fields.map Field.name, '#' ∉ name.toList := by
    intro name hName
    have hSchema := isSchemaName_fieldNames hFields hOneofs h name
      (h.names.mem_iff.mpr (List.mem_append_right _ hName))
    exact not_mem_of_isSchemaName hSchema (by decide)
  have hMem : ∀ word, ¬ Begins "get_" word →
      (word ∈ state.fields.map Field.name ↔ word ∈ given "_" requests) := by
    intro word hWord
    rw [← hTaken, h.names.mem_iff, List.mem_append]
    constructor
    · exact .inr
    · rintro (hGetter | hName)
      · exact absurd (begins_getter hGathered word hGetter) hWord
      · exact hName
  have hCount : ∀ word, ¬ Begins "get_" word → requests.count word = (slots message typed).count word :=
    fun word hWord => (hRequests.count_eq word).trans (count_asked hWord)
  have hNames : (state.fields.map fun field => fieldIdentifier field.name)
      = (state.fields.map Field.name).map fieldIdentifier := by
    rw [List.map_map]
    rfl
  rw [hNames, nodup_fieldIdentifiers_iff hRaw hDistinct]
  refine forall₂_congr fun word hRoot => ?_
  obtain ⟨hWord, hExtended, -⟩ := rootWord_apart word hRoot
  have hBare : ∀ request ∈ requests, ∀ n, repeatedly "_" request n = word → n = 0 := by
    intro request hRequest n
    exact bare_of_rootWord hRoot (isSchemaName_asked hFields hOneofs request (hRequests.mem_iff.mp hRequest)) n
  rw [hMem word hWord, hMem _ hExtended, mem_given_iff (by decide) hBare,
    suffixed_mem_given_iff (by decide) hBare, ← List.count_pos_iff, ← List.count_pos_iff, hCount word hWord,
    hCount _ hExtended, ← List.count_pos_iff, ← List.count_pos_iff]
  omega

end

end

/-! ### Printed fields -/

/-- A message whose fields and oneofs have names as schemas allow them. -/
def HasSchemaNames (message : MessageNode) : Prop :=
  (∀ field ∈ message.decl.fields, isSchemaName field.name = true) ∧
    ∀ oneof ∈ message.decl.oneofs, isSchemaName oneof.name = true

instance (message : MessageNode) : Decidable (HasSchemaNames message) := inferInstanceAs (Decidable (_ ∧ _))

theorem HasSchemaNames.oneofName {message : MessageNode} (h : HasSchemaNames message) (index : Int) :
    isSchemaName (oneofName message index) = true := by
  unfold Emit.oneofName
  cases hDecl : oneofDecl? message index with
  | none => rfl
  | some decl =>
    unfold oneofDecl? at hDecl
    split at hDecl
    · exact h.2 decl (List.mem_of_getElem? hDecl)
    · cases hDecl

/-- The names that the fields of a message and its oneofs have in the case of fields. -/
def slotNames (message : MessageNode) : List String :=
  ((message.decl.fields.filter fun field => field.home = none).map fun field => snake field.name)
    ++ (message.decl.fields.filterMap FieldDecl.home).dedup.map fun index => snake (oneofName message index)

theorem slots_eq {scope : Scope} {message : MessageNode} {typed : List TypedField}
    (h : List.Forall₂ (IsTyped scope) message.decl.fields typed) : slots message typed = slotNames message := by
  have hPlain : ((ofHome none typed).map fun field => snake field.decl.name)
      = (message.decl.fields.filter fun field => field.home = none).map fun field => snake field.name := by
    rw [← map_decl_ofHome h none, List.map_map]
    rfl
  have hHomes : homes typed = message.decl.fields.filterMap FieldDecl.home := by
    have hSame := congrArg (List.filterMap id) (map_home h)
    rwa [List.filterMap_map, List.filterMap_map] at hSame
  rw [slots, hPlain, hHomes, slotNames]

/-- What the lines of a structure say about its fields: one identifier for each name that the message asks for,
different ones except where a word without raw form is in the way, and methods that match on them. -/
structure FieldsPrinted (names : LocalNames) (message : MessageNode) (s : Struct) : Prop where
  count : (fieldIdentifiers 1 (s.declaration names)).length = (slotNames message).length
  distinct : (fieldIdentifiers 1 (s.declaration names)).Nodup ↔ ∀ word ∈ rootWords, word ∈ slotNames message →
    (slotNames message).count word = 1 ∧ word ++ "_" ∉ slotNames message
  matched : ∀ o ∈ oneofs s.fields, ∃ identifier, fieldIdentifiers 0 o.lines = [identifier] ∧
    ∀ member ∈ o.members, matchedFields 0 (member.getterLines names o) = [identifier]

theorem fieldIdentifiers_declaration (names : LocalNames) {s : Struct}
    (h : ∀ field ∈ s.fields, isSchemaName field.name = true) :
    fieldIdentifiers 1 (s.declaration names) = s.fields.map fun field => fieldIdentifier field.name := by
  rw [fieldIdentifiers, wordsBehind, headedTexts_declaration, List.map_flatMap, List.map_eq_flatMap]
  refine List.flatMap_congr fun field hField => ?_
  cases field with
  | plain field => exact fieldIdentifiers_plain names (h _ hField)
  | oneof o => exact fieldIdentifiers_oneof (h _ hField)

theorem fieldsPrinted_of_assembles {scope : Scope} (names : LocalNames) {message : MessageNode} {s : Struct}
    (hNames : HasSchemaNames message) (h : Assembles scope message s) : FieldsPrinted names message s := by
  obtain ⟨-, typed, used, hTyped, hFields⟩ := h
  have hAllotted := allotted_assemble scope.file message used typed
  have hGathered := gathered_assemble scope.file message used typed
  have hTypedNames : ∀ field ∈ typed, isSchemaName field.decl.name = true :=
    fun field hField => hNames.1 _ (decl_mem hTyped field hField)
  have hFieldNames : ∀ field ∈ s.fields, isSchemaName field.name = true := by
    intro field hField
    rw [hFields] at hField
    apply isSchemaName_fieldNames hTypedNames hNames.oneofName hAllotted
    exact hAllotted.names.mem_iff.mpr (List.mem_append_right _ (List.mem_map_of_mem hField))
  have hIdentifiers := fieldIdentifiers_declaration names hFieldNames
  constructor
  case count => rw [hIdentifiers, List.length_map, hFields, length_fields hAllotted, slots_eq hTyped]
  case distinct =>
    rw [hIdentifiers, hFields, nodup_identifiers_iff hTypedNames hNames.oneofName hAllotted hGathered,
      slots_eq hTyped]
  case matched =>
    intro o hO
    obtain ⟨field, hField, hSome⟩ := List.mem_filterMap.mp hO
    cases field with
    | plain field => cases hSome
    | oneof field =>
      cases hSome
      refine ⟨fieldIdentifier o.name, fieldIdentifiers_oneof (hFieldNames _ hField), ?_⟩
      intro member _
      exact matchedFields_getterLines names (hFieldNames _ hField)

/-- Two fields of one structure have the same identifier exactly if `self`, `super`, `crate` or a single underscore
is asked for twice, or beside itself with one more underscore. -/
theorem fieldIdentifiers_nodup_iff {scope : Scope} {model : ModelFile}
    (hModel : ModelFile.ofScope scope = .ok model) :
    List.Forall₂ (fun message s => HasSchemaNames message → FieldsPrinted model.names message s)
      scope.declaredMessages model.structs :=
  (assembles_of_ofScope hModel).imp fun _ _ h hNames => fieldsPrinted_of_assembles model.names hNames h

/-- A message with two fields that have no raw form and differ in case only. -/
def selfFields : FileDecl where
  name := "a.proto"
  messages := [.mk "M" [{ name := "self", number := 1 }, { name := "Self", number := 2 }] [] [] [] [] [] []
    false false []]

/-- Different fields of one message whose identifiers are the same. -/
theorem fieldIdentifiers_selfFields :
    (∀ message ∈ (singleFileScope selfFields).declaredMessages, (message.decl.fields.map (·.name)).Nodup) ∧
      ∃ model, ModelFile.ofScope (singleFileScope selfFields) = .ok model ∧
        ∃ s ∈ model.structs, ¬ (fieldIdentifiers 1 (s.declaration model.names)).Nodup := by
  obtain ⟨model, hModel⟩ : ∃ model, ModelFile.ofScope (singleFileScope selfFields) = .ok model := ⟨_, rfl⟩
  have hPrinted := fieldIdentifiers_nodup_iff hModel
  refine ⟨by decide, model, hModel, ?_⟩
  generalize model.structs = structs at hPrinted ⊢
  cases hPrinted with
  | @cons message s _ structs hFirst hRest =>
    refine ⟨s, List.mem_cons_self, ?_⟩
    rw [(hFirst (by decide)).distinct]
    decide

end Emit

end ProtoBind
