import ProtoBind.Proofs.AssemblySteps
import ProtoBind.Proofs.DistinctTypes
import ProtoBind.Proofs.ExactArena

/-!
# Fields in groups

A field of a structure stands for a group of the fields of a message: one that stands alone, or all members of
one oneof. Every field of the message is in one group, and the groups come in the order of their first fields.
-/

set_option autoImplicit false

namespace ProtoBind.Emit

/-! ### Groups of places -/

/-- The places of the fields in the oneof with an index, by the homes of all fields. -/
def placesIn (index : Int) (homes : List (Option Int)) : List Nat := placesWhere (· == some index) 0 homes

/-- The places of the fields that share a field of the structure with one. -/
def groupAt (homes : List (Option Int)) (place : Nat) : List Nat :=
  match homes[place]? with
  | some (some index) => placesIn index homes
  | _ => [place]

def firstPlaces (homes : List (Option Int)) : List Nat :=
  (List.range homes.length).filter fun place => (groupAt homes place).head? == some place

section

variable {homes : List (Option Int)} {place other : Nat} {index : Int}

theorem mem_placesIn : place ∈ placesIn index homes ↔ homes[place]? = some (some index) := by
  rw [placesIn, mem_placesWhere]
  constructor
  · rintro ⟨k, home, rfl, hHome, hSame⟩
    rw [Nat.zero_add, hHome, eq_of_beq hSame]
  · intro h
    exact ⟨place, _, (Nat.zero_add place).symm, h, beq_self_eq_true _⟩

theorem placesIn_eq_nil_iff : placesIn index homes = [] ↔ some index ∉ homes := by
  rw [List.eq_nil_iff_forall_not_mem, List.mem_iff_getElem?, not_exists]
  exact forall_congr' fun place => not_congr mem_placesIn

theorem groupAt_of_home (h : homes[place]? = some (some index)) : groupAt homes place = placesIn index homes := by
  rw [groupAt, h]

theorem groupAt_of_alone (h : homes[place]? = some none) : groupAt homes place = [place] := by rw [groupAt, h]

theorem self_mem_groupAt (h : place < homes.length) : place ∈ groupAt homes place := by
  have hHome := List.getElem?_eq_getElem h
  cases hCase : homes[place] with
  | none =>
    rw [groupAt_of_alone (hHome.trans (congrArg some hCase))]
    exact List.mem_singleton_self place
  | some index =>
    rw [hCase] at hHome
    rw [groupAt_of_home hHome]
    exact mem_placesIn.mpr hHome

theorem groupAt_eq_of_mem (h : other ∈ groupAt homes place) : groupAt homes other = groupAt homes place := by
  unfold groupAt at h
  split at h
  · rename_i index hHome
    rw [groupAt_of_home (mem_placesIn.mp h), groupAt_of_home hHome]
  · rw [List.mem_singleton.mp h]

theorem lt_of_mem_groupAt (hPlace : place < homes.length) (h : other ∈ groupAt homes place) :
    other < homes.length := by
  unfold groupAt at h
  split at h
  · exact (List.getElem?_eq_some_iff.mp (mem_placesIn.mp h)).1
  · rwa [List.mem_singleton.mp h]

theorem nodup_groupAt (homes : List (Option Int)) (place : Nat) : (groupAt homes place).Nodup := by
  unfold groupAt
  split
  · exact nodup_placesWhere _ _ _
  · exact List.nodup_singleton _

theorem mem_firstPlaces :
    place ∈ firstPlaces homes ↔ place < homes.length ∧ (groupAt homes place).head? = some place := by
  rw [firstPlaces, List.mem_filter, List.mem_range, beq_iff_eq]

theorem firstPlaces_ascending (homes : List (Option Int)) : (firstPlaces homes).Pairwise (· < ·) :=
  List.pairwise_lt_range.filter _

theorem map_head?_groups (homes : List (Option Int)) :
    ((firstPlaces homes).map (groupAt homes)).map List.head? = (firstPlaces homes).map some := by
  rw [List.map_map]
  exact List.map_congr_left fun place hLead => (mem_firstPlaces.mp hLead).2

/-- Every place is in the group of one lead. -/
theorem flatten_groups (homes : List (Option Int)) :
    ((firstPlaces homes).map (groupAt homes)).flatten.Perm (List.range homes.length) := by
  have hDistinct : ((firstPlaces homes).map (groupAt homes)).flatten.Nodup := by
    rw [List.nodup_flatten, List.forall_mem_map, List.pairwise_map]
    refine ⟨fun place _ => nodup_groupAt homes place, (firstPlaces_ascending homes).imp_of_mem ?_⟩
    intro first second hFirst hSecond hLess place hInFirst hInSecond
    have hSame := (groupAt_eq_of_mem hInFirst).symm.trans (groupAt_eq_of_mem hInSecond)
    have hHeads := (mem_firstPlaces.mp hFirst).2
    rw [hSame, (mem_firstPlaces.mp hSecond).2, Option.some.injEq] at hHeads
    omega
  rw [List.perm_ext_iff_of_nodup hDistinct List.nodup_range]
  intro place
  simp only [List.mem_flatten, List.mem_map, List.mem_range]
  constructor
  · rintro ⟨_, ⟨lead, hLead, rfl⟩, hPlace⟩
    exact lt_of_mem_groupAt (mem_firstPlaces.mp hLead).1 hPlace
  · intro hPlace
    have hSelf := self_mem_groupAt hPlace
    obtain ⟨lead, hHead⟩ := Option.isSome_iff_exists.mp (List.isSome_head?.mpr (List.ne_nil_of_mem hSelf))
    have hMem := List.mem_of_head? hHead
    refine ⟨_, ⟨lead, mem_firstPlaces.mpr ⟨lt_of_mem_groupAt hPlace hMem, ?_⟩, rfl⟩, ?_⟩
    · rwa [groupAt_eq_of_mem hMem]
    · rwa [groupAt_eq_of_mem hMem]

/-! ### One more place -/

theorem placesIn_concat_of_eq (index : Int) (homes : List (Option Int)) :
    placesIn index (homes ++ [some index]) = placesIn index homes ++ [homes.length] := by
  rw [placesIn, placesWhere_append, placesWhere, if_pos (beq_self_eq_true _), Nat.zero_add]
  rfl

theorem placesIn_concat_of_ne {home : Option Int} (h : home ≠ some index) (homes : List (Option Int)) :
    placesIn index (homes ++ [home]) = placesIn index homes := by
  rw [placesIn, placesWhere_append, placesWhere, if_neg (by simpa using h)]
  exact List.append_nil _

theorem getElem?_concat_of_some {α : Type} {as : List α} {a : α} (h : as[place]? = some a) (last : α) :
    (as ++ [last])[place]? = some a := by
  rw [List.getElem?_append_left (List.getElem?_eq_some_iff.mp h).1, h]

theorem head?_groupAt_concat (h : place < homes.length) (home : Option Int) :
    (groupAt (homes ++ [home]) place).head? = (groupAt homes place).head? := by
  have hHome := List.getElem?_eq_getElem h
  have hGrown := getElem?_concat_of_some hHome home
  cases hCase : homes[place] with
  | none =>
    rw [hCase] at hHome hGrown
    rw [groupAt_of_alone hHome, groupAt_of_alone hGrown]
  | some index =>
    rw [hCase] at hHome hGrown
    rw [groupAt_of_home hHome, groupAt_of_home hGrown]
    by_cases hSame : home = some index
    · rw [hSame, placesIn_concat_of_eq]
      exact List.head?_append_of_ne_nil _ (List.ne_nil_of_mem (mem_placesIn.mpr hHome))
    · rw [placesIn_concat_of_ne hSame]

theorem firstPlaces_concat (homes : List (Option Int)) (home : Option Int) :
    firstPlaces (homes ++ [home]) = firstPlaces homes
      ++ if (groupAt (homes ++ [home]) homes.length).head? = some homes.length then [homes.length] else [] := by
  rw [firstPlaces, List.length_append, List.length_singleton, List.range_succ, List.filter_append, firstPlaces]
  congr 1
  · refine List.filter_congr fun place hPlace => ?_
    rw [head?_groupAt_concat (List.mem_range.mp hPlace)]
  · split
    · rename_i hHead
      exact List.filter_cons_of_pos (beq_iff_eq.mpr hHead)
    · rename_i hHead
      exact List.filter_cons_of_neg (mt beq_iff_eq.mp hHead)

theorem firstPlaces_concat_none (homes : List (Option Int)) :
    firstPlaces (homes ++ [none]) = firstPlaces homes ++ [homes.length] := by
  rw [firstPlaces_concat, groupAt_of_alone List.getElem?_concat_length, List.head?_singleton, if_pos rfl]

theorem firstPlaces_concat_new (h : some index ∉ homes) :
    firstPlaces (homes ++ [some index]) = firstPlaces homes ++ [homes.length] := by
  rw [firstPlaces_concat, groupAt_of_home List.getElem?_concat_length, placesIn_concat_of_eq,
    placesIn_eq_nil_iff.mpr h, List.nil_append, List.head?_singleton, if_pos rfl]

theorem firstPlaces_concat_known (h : some index ∈ homes) :
    firstPlaces (homes ++ [some index]) = firstPlaces homes := by
  have hNe : placesIn index homes ≠ [] := fun hNil => placesIn_eq_nil_iff.mp hNil h
  rw [firstPlaces_concat, groupAt_of_home List.getElem?_concat_length, placesIn_concat_of_eq,
    List.head?_append_of_ne_nil _ hNe, if_neg, List.append_nil]
  intro hHead
  have hLast := mem_placesIn.mp (List.mem_of_head? hHead)
  rw [List.getElem?_eq_none (Nat.le_refl _)] at hLast
  cases hLast

end

/-! ### Groups of an assembly -/

def TypedAt (typed : List TypedField) (place : Nat) (role : Role) (note : Note) : Prop :=
  ∃ field, typed[place]? = some field ∧ field.role = role ∧ field.note = note

def StandsAt (typed : List TypedField) (homes : List (Option Int)) (lead : Nat) : Field → Prop
  | .plain plain => homes[lead]? = some none ∧ TypedAt typed lead (.plain plain.shape) plain.note
  | .oneof o => homes[lead]? = some (some o.index) ∧ List.Forall₂ (fun place member =>
      TypedAt typed place (.member o.index member.element) member.note) (placesIn o.index homes) o.members

section

variable {typed : List TypedField} {homes : List (Option Int)} {place : Nat} {field : TypedField}

theorem TypedAt.concat {role : Role} {note : Note} (h : TypedAt typed place role note) (field : TypedField) :
    TypedAt (typed ++ [field]) place role note := by
  obtain ⟨known, hKnown, hSaid⟩ := h
  exact ⟨known, getElem?_concat_of_some hKnown field, hSaid⟩

theorem typedAt_last (typed : List TypedField) (field : TypedField) :
    TypedAt (typed ++ [field]) typed.length field.role field.note :=
  ⟨field, List.getElem?_concat_length, rfl, rfl⟩

theorem StandsAt.concat {entry : Field} (h : StandsAt typed homes place entry) (field : TypedField) {home : Option Int}
    (hHome : ∀ index, homes[place]? = some (some index) → home ≠ some index) :
    StandsAt (typed ++ [field]) (homes ++ [home]) place entry := by
  cases entry with
  | plain plain => exact ⟨getElem?_concat_of_some h.1 home, h.2.concat field⟩
  | oneof o =>
    refine ⟨getElem?_concat_of_some h.1 home, ?_⟩
    rw [placesIn_concat_of_ne (hHome o.index h.1)]
    exact h.2.imp fun _ _ hMember => hMember.concat field

theorem StandsAt.concat_member {entry : Field} (h : StandsAt typed homes place entry)
    (hLength : homes.length = typed.length) {index : Int} {element : Element} (getter : String)
    (hRole : field.role = .member index element) :
    StandsAt (typed ++ [field]) (homes ++ [some index]) place
      (entry.addMember index (field.asMember element getter)) := by
  cases entry with
  | plain plain => exact h.concat field (by simp [h.1])
  | oneof o =>
    rw [Field.addMember]
    split
    · rename_i hIndex
      refine ⟨getElem?_concat_of_some h.1 _, ?_⟩
      change List.Forall₂ _ (placesIn o.index _) _
      rw [hIndex, placesIn_concat_of_eq, hLength]
      refine List.rel_append ?_ (.cons ?_ .nil)
      · rw [← hIndex]
        exact h.2.imp fun _ _ hMember => hMember.concat field
      · exact ⟨field, List.getElem?_concat_length, by rw [hRole]; rfl, rfl⟩
    · rename_i hIndex
      refine h.concat field fun other hOther hSame => hIndex ?_
      rw [h.1, Option.some.injEq, ← hSame] at hOther
      exact Option.some.inj hOther

end

theorem stands_assemble (file : FileNode) (message : MessageNode) (typeNames : List String)
    (typed : List TypedField) :
    List.Forall₂ (StandsAt typed (typed.map (·.role.home))) (firstPlaces (typed.map (·.role.home)))
      (assemble file message typeNames typed).fields := by
  refine assemble_induction (P := fun front state =>
    List.Forall₂ (StandsAt front (front.map (·.role.home))) (firstPlaces (front.map (·.role.home)))
      state.fields) ?_ ?_ typed
  · exact .nil
  · intro front field state next hFront h hStep
    have hLength : (front.map (·.role.home)).length = front.length := List.length_map _
    -- The oneofs that are known are those that a field has been seen of, so a step of each kind has a place.
    have hKnown : ∀ index, some index ∈ front.map (·.role.home) ↔
        ∃ o ∈ oneofs state.fields, o.index = index := by
      intro index
      constructor
      · intro hMem
        obtain ⟨other, hOther, hSame⟩ := List.mem_map.mp hMem
        exact hFront.covered other hOther index hSame
      · rintro ⟨o, hO, rfl⟩
        obtain ⟨entry, hEntry, hSome⟩ := List.mem_filterMap.mp hO
        obtain ⟨lead, -, hStands⟩ := exists_of_forall₂_right h entry hEntry
        cases entry with
        | plain plain => cases hSome
        | oneof first =>
          cases hSome
          exact List.mem_of_getElem? hStands.1
    rw [List.map_append, List.map_singleton]
    cases hStep with
    | @alone shape name hRole hName =>
      have hHome : field.role.home = none := congrArg Role.home hRole
      rw [hHome, firstPlaces_concat_none, hLength]
      refine List.rel_append (h.imp fun _ _ hEntry => hEntry.concat field (by simp)) (.cons ?_ .nil)
      refine ⟨hLength ▸ List.getElem?_concat_length, ?_⟩
      exact hRole ▸ typedAt_last front field
    | @joins index element getter hRole hIndex hGetter =>
      have hHome : field.role.home = some index := congrArg Role.home hRole
      rw [hHome, firstPlaces_concat_known ((hKnown index).mpr hIndex), List.forall₂_map_right_iff]
      exact h.imp fun _ _ hEntry => hEntry.concat_member hLength getter hRole
    | @begins index element getter name enumName hRole hNew hGetter hName hEnum =>
      have hHome : field.role.home = some index := congrArg Role.home hRole
      have hFirst : some index ∉ front.map (·.role.home) := by
        intro hMem
        obtain ⟨o, hO, hIndex⟩ := (hKnown index).mp hMem
        exact hNew o hO hIndex
      have hOld : ∀ (lead : Nat) (other : Int), (front.map (·.role.home))[lead]? = some (some other) →
          some index ≠ some other := by
        rintro lead other hOther hSame
        exact hFirst (hSame ▸ List.mem_of_getElem? hOther)
      rw [hHome, firstPlaces_concat_new hFirst]
      refine List.rel_append (h.imp fun lead _ hEntry => hEntry.concat field (hOld lead)) (.cons ?_ .nil)
      refine ⟨List.getElem?_concat_length, ?_⟩
      change List.Forall₂ _ (placesIn index _) _
      rw [placesIn_concat_of_eq, placesIn_eq_nil_iff.mpr hFirst, hLength]
      exact .cons ⟨field, List.getElem?_concat_length, hRole, rfl⟩ .nil

/-! ### Groups of declared fields -/

/-- The field that a message declares at a place, with its role, its home and what is said of it. -/
def DeclaresAt (scope : Scope) (message : MessageNode) (place : Nat) (role : Role) (note : Note) : Prop :=
  ∃ field, message.decl.fields[place]? = some field ∧ scope.role field = .ok role ∧ role.home = field.home ∧
    note = field.note (scope.file.comment? (message.path.field place))

/-- The places of the fields that a message declares in the oneof with an index. -/
def memberPlaces (message : MessageNode) (index : Int) : List Nat :=
  placesWhere (·.home == some index) 0 message.decl.fields

/-- A field of a structure stands for the fields at the places of a group: for one that is alone, or for all those
of its oneof, one member for each. -/
def StandsForGroup (scope : Scope) (message : MessageNode) (group : List Nat) : Field → Prop
  | .plain plain => ∃ place, group = [place] ∧ DeclaresAt scope message place (.plain plain.shape) plain.note
  | .oneof o => group = memberPlaces message o.index ∧ List.Forall₂ (fun place member =>
      DeclaresAt scope message place (.member o.index member.element) member.note) group o.members

/-- The fields of a structure stand for groups that take up every field of the message once. -/
structure Grouped (scope : Scope) (message : MessageNode) (groups : List (List Nat)) (entries : List Field) : Prop where
  once : groups.flatten.Perm (List.range message.decl.fields.length)
  ordered : ∃ firsts : List Nat, groups.map List.head? = firsts.map some ∧ firsts.Pairwise (· < ·)
  stand : List.Forall₂ (StandsForGroup scope message) groups entries
  distinct : ((oneofs entries).map (·.index)).Nodup
  indices : ∀ index, index ∈ (oneofs entries).map (·.index) ↔
    ∃ field ∈ message.decl.fields, field.home = some index

section

variable {scope : Scope} {message : MessageNode}

theorem getElem?_typedFields {path : SourcePath} {start : Nat} {fields : List FieldDecl} {typed : List TypedField}
    (h : scope.typedFields path start fields = .ok typed) {place : Nat} {field : TypedField}
    (hField : typed[place]? = some field) :
    fields[place]? = some field.decl ∧ scope.role field.decl = .ok field.role ∧
      field.comment = scope.file.comment? (path.field (start + place)) := by
  induction fields generalizing start typed place with
  | nil =>
    cases h
    cases hField
  | cons first rest ih =>
    obtain ⟨role, hRole, h⟩ := bind_ok_iff.mp h
    obtain ⟨others, hRest, h⟩ := bind_ok_iff.mp h
    cases h
    cases place with
    | zero =>
      cases hField
      exact ⟨rfl, hRole, rfl⟩
    | succ place =>
      obtain ⟨hDecl, hOther, hComment⟩ := ih hRest hField
      refine ⟨hDecl, hOther, hComment.trans ?_⟩
      rw [Nat.add_assoc, Nat.add_comm 1 place]

theorem fields_of_typedMessage {typed : TypedMessage} (h : scope.typedMessage message = .ok typed) :
    scope.typedFields message.path 0 message.decl.fields = .ok typed.fields := by
  unfold Scope.typedMessage at h
  split at h
  · rename_i fields hFields
    cases h
    exact hFields
  · cases h

theorem declaresAt_of_typedAt {typed : List TypedField}
    (h : scope.typedFields message.path 0 message.decl.fields = .ok typed) {place : Nat} {role : Role} {note : Note}
    (hAt : TypedAt typed place role note) : DeclaresAt scope message place role note := by
  obtain ⟨field, hField, rfl, rfl⟩ := hAt
  obtain ⟨hDecl, hRole, hComment⟩ := getElem?_typedFields h hField
  rw [Nat.zero_add] at hComment
  exact ⟨field.decl, hDecl, hRole, Scope.home_of_role hRole, by rw [TypedField.note, hComment]⟩

theorem placesIn_homes (message : MessageNode) (index : Int) :
    placesIn index (message.decl.fields.map FieldDecl.home) = memberPlaces message index :=
  placesWhere_congr (by rw [List.map_map]; rfl) 0

theorem standsForGroup_of_standsAt {typed : List TypedField}
    (h : scope.typedFields message.path 0 message.decl.fields = .ok typed) {place : Nat} {entry : Field}
    (hStands : StandsAt typed (message.decl.fields.map FieldDecl.home) place entry) :
    StandsForGroup scope message (groupAt (message.decl.fields.map FieldDecl.home) place) entry := by
  cases entry with
  | plain plain => exact ⟨place, groupAt_of_alone hStands.1, declaresAt_of_typedAt h hStands.2⟩
  | oneof o =>
    rw [groupAt_of_home hStands.1]
    exact ⟨placesIn_homes message o.index, hStands.2.imp fun _ _ hMember => declaresAt_of_typedAt h hMember⟩

/-- The fields of a structure stand for the fields of a message: every one stands alone or is a member of its own
oneof, no oneof has two fields, and the structure is in the order of the first fields of its groups. -/
theorem fields_grouped {typed : TypedMessage} (h : scope.typedMessage message = .ok typed) (used : List String) :
    ∃ groups, Grouped scope message groups (assemble scope.file message used typed.fields).fields := by
  have hFields := fields_of_typedMessage h
  have hHomes := map_home (typed_of_typedMessage h).2
  have hAssembled := assembled_assemble scope.file message used typed.fields
  have hGathered := gathered_assemble scope.file message used typed.fields
  have hStands := stands_assemble scope.file message used typed.fields
  rw [hHomes] at hStands
  refine ⟨(firstPlaces (message.decl.fields.map FieldDecl.home)).map
    (groupAt (message.decl.fields.map FieldDecl.home)), ?_⟩
  constructor
  · have hOnce := flatten_groups (message.decl.fields.map FieldDecl.home)
    rwa [List.length_map] at hOnce
  · exact ⟨_, map_head?_groups _, firstPlaces_ascending _⟩
  · rw [List.forall₂_map_left_iff]
    exact hStands.imp fun _ _ hEntry => standsForGroup_of_standsAt hFields hEntry
  · exact hAssembled.distinct
  · intro index
    have hMembers : (∃ field ∈ message.decl.fields, field.home = some index) ↔
        some index ∈ typed.fields.map (·.role.home) := by rw [hHomes, List.mem_map]
    rw [hMembers, List.mem_map]
    constructor
    · rintro ⟨o, hO, rfl⟩
      exact hGathered.homes o hO
    · intro hMem
      obtain ⟨field, hField, hHome⟩ := List.mem_map.mp hMem
      exact hAssembled.covered field hField index hHome

end

/-- A file whose message has members of a declared and of an undeclared oneof, in between each other. -/
def interleavedFile : FileDecl where
  name := "a.proto"
  messages := [.mk "M"
    [{ name := "first", number := 1, jsonName := some "" },
      { name := "left", number := 2, oneofIndex := some 0 },
      { name := "stray", number := 3, oneofIndex := some (-1) },
      { name := "right", number := 4, oneofIndex := some 0, jsonName := some "R" },
      { name := "maybe", number := 5, oneofIndex := some 1, proto3Optional := true },
      { name := "other", number := 6, oneofIndex := some (-1) }]
    [] [] [{ name := "side" }, { name := "_maybe" }] [] [] [] false false []]

theorem fields_grouped_interleaved : ∃ message ∈ (singleFileScope interleavedFile).declaredMessages, ∃ typed groups,
    (singleFileScope interleavedFile).typedMessage message = .ok typed ∧
      message.decl.fields.map FieldDecl.home = [none, some 0, some (-1), some 0, none, some (-1)] ∧
      Grouped (singleFileScope interleavedFile) message groups
        (assemble (singleFileScope interleavedFile).file message [] typed.fields).fields := by
  obtain ⟨message, hMessage, typed, hTyped, hHomes⟩ : ∃ message ∈ (singleFileScope interleavedFile).declaredMessages,
      ∃ typed, (singleFileScope interleavedFile).typedMessage message = .ok typed ∧
        message.decl.fields.map FieldDecl.home = [none, some 0, some (-1), some 0, none, some (-1)] :=
    ⟨_, List.mem_cons_self, _, rfl, by decide⟩
  obtain ⟨groups, hGroups⟩ := fields_grouped hTyped []
  exact ⟨message, hMessage, typed, groups, hTyped, hHomes, hGroups⟩

end ProtoBind.Emit
