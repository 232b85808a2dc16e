import ProtoBind.Proofs.Stages

/-!
# Exact arenas

An arena holds the trees of its files and nothing else. Its lists are those of the files one behind the
other, and parents and links say the same from both sides.
-/

set_option autoImplicit false

namespace ProtoBind

/-! ### Places of elements -/

theorem mem_placesWhere {α : Type} {p : α → Bool} {n place : Nat} {as : List α} :
    place ∈ placesWhere p n as ↔ ∃ k a, place = n + k ∧ as[k]? = some a ∧ p a = true := by
  induction as generalizing n with
  | nil => simp [placesWhere]
  | cons a as ih =>
    have hTail : place ∈ placesWhere p (n + 1) as ↔
        ∃ k b, place = n + (k + 1) ∧ (a :: as)[k + 1]? = some b ∧ p b = true := by
      simp only [ih, Nat.add_assoc, Nat.add_comm 1, List.getElem?_cons_succ]
    have hHead : place ∈ placesWhere p n (a :: as) ↔
        (place = n ∧ p a = true) ∨ place ∈ placesWhere p (n + 1) as := by
      rw [placesWhere]
      split <;> simp_all
    rw [hHead, hTail]
    constructor
    · rintro (⟨rfl, hA⟩ | ⟨k, b, rfl, hB, hP⟩)
      · exact ⟨0, a, rfl, rfl, hA⟩
      · exact ⟨k + 1, b, rfl, hB, hP⟩
    · rintro ⟨k, b, rfl, hB, hP⟩
      cases k with
      | zero =>
        cases hB
        exact .inl ⟨rfl, hP⟩
      | succ k => exact .inr ⟨k, b, rfl, hB, hP⟩

theorem placesWhere_sublist {α : Type} (p : α → Bool) (n : Nat) (as : List α) :
    List.Sublist (placesWhere p n as) (List.range' n as.length) := by
  induction as generalizing n with
  | nil => exact List.Sublist.refl []
  | cons a as ih =>
    rw [placesWhere, List.length_cons, List.range'_succ]
    split
    · exact (ih (n + 1)).cons_cons n
    · exact (ih (n + 1)).cons n

theorem nodup_placesWhere {α : Type} (p : α → Bool) (n : Nat) (as : List α) :
    (placesWhere p n as).Nodup := (placesWhere_sublist p n as).nodup List.nodup_range'

theorem placesWhere_congr {α β : Type} {p : α → Bool} {q : β → Bool} {as : List α} {bs : List β}
    (h : as.map p = bs.map q) (n : Nat) : placesWhere p n as = placesWhere q n bs := by
  induction as generalizing bs n with
  | nil =>
    cases bs with
    | nil => rfl
    | cons b bs => cases h
  | cons a as ih =>
    cases bs with
    | nil => cases h
    | cons b bs =>
      obtain ⟨hHead, hTail⟩ := List.cons.inj h
      rw [placesWhere, placesWhere, hHead, ih hTail]

section

variable {α : Type} {parent : α → Option Nat} {as bs : List α} {n place : Nat}

/-- Children of what stands in front are in front. -/
theorem filter_parent_front (hBack : ∀ b ∈ bs, ∀ p, parent b = some p → n ≤ p) (h : place < n) :
    (as ++ bs).filter (parent · == some place) = as.filter (parent · == some place) := by
  rw [List.filter_append, List.append_right_eq_self, List.filter_eq_nil_iff]
  intro b hB
  rw [beq_iff_eq]
  exact fun hParent => Nat.lt_irrefl _ (Nat.lt_of_lt_of_le h (hBack b hB place hParent))

theorem filter_parent_back (hFront : ∀ a ∈ as, ∀ p, parent a = some p → p < n) (h : n ≤ place) :
    (as ++ bs).filter (parent · == some place) = bs.filter (parent · == some place) := by
  rw [List.filter_append, List.append_left_eq_self, List.filter_eq_nil_iff]
  intro a hA
  rw [beq_iff_eq]
  exact fun hParent => Nat.lt_irrefl _ (Nat.lt_of_lt_of_le (hFront a hA place hParent) h)

theorem placesWhere_parent_front (hBack : ∀ b ∈ bs, ∀ p, parent b = some p → n ≤ p) (h : place < n) :
    placesWhere (parent · == some place) 0 (as ++ bs) = placesWhere (parent · == some place) 0 as := by
  rw [placesWhere_append, List.append_right_eq_self]
  refine placesWhere_eq_nil (fun b hB => ?_) _
  rw [beq_eq_false_iff_ne]
  exact fun hParent => Nat.lt_irrefl _ (Nat.lt_of_lt_of_le h (hBack b hB place hParent))

theorem placesWhere_parent_back (hFront : ∀ a ∈ as, ∀ p, parent a = some p → p < n) (h : n ≤ place) :
    placesWhere (parent · == some place) 0 (as ++ bs)
      = placesWhere (parent · == some place) as.length bs := by
  rw [placesWhere_append, placesWhere_eq_nil, List.nil_append, Nat.zero_add]
  intro a hA
  rw [beq_eq_false_iff_ne]
  exact fun hParent => Nat.lt_irrefl _ (Nat.lt_of_lt_of_le (hFront a hA place hParent) h)

end

namespace Arena

/-! ### What is exact about an arena -/

def enumsAt (arena : Arena) (place : Nat) : List Nat := (arena.messages[place]?.map (·.enums)).getD []

structure ExactLinks (arena : Arena) (place : Nat) (entry : MessageEntry) : Prop where
  nestedDecls : entry.nested.map (fun child => arena.messages[child]?.map (·.decl))
    = entry.decl.nested.map some
  enumDecls : entry.enums.map (fun child => arena.enums[child]?.map (·.decl)) = entry.decl.enums.map some
  mem_nested_iff : ∀ child, child ∈ entry.nested ↔ parentAt arena.messages child = some place
  mem_enums_iff : ∀ child, child ∈ entry.enums ↔ enumParentAt arena.enums child = some place
  nodup_nested : entry.nested.Nodup
  nodup_enums : entry.enums.Nodup

/-- A message is named after the one around it, in the same file. -/
structure ExactName (arena : Arena) (entry : MessageEntry) : Prop where
  outermost : entry.parent = none → entry.typeName = [entry.decl.name] ∧ entry.group = false
  within : ∀ place, entry.parent = some place → ∃ outer file, arena.messages[place]? = some outer ∧
    arena.files[entry.file]? = some file ∧ outer.file = entry.file ∧
    entry.typeName = outer.typeName ++ [entry.decl.name] ∧
    (entry.group = true ↔ ∃ field ∈ outer.decl.fields, field.type = .group ∧
      field.typeName = fullName file.decl.package entry.typeName)

structure ExactEnumName (arena : Arena) (e : EnumEntry) : Prop where
  outermost : e.parent = none → e.typeName = [e.decl.name]
  within : ∀ place, e.parent = some place → ∃ outer, arena.messages[place]? = some outer ∧
    outer.file = e.file ∧ e.typeName = outer.typeName ++ [e.decl.name]

/-- The file at a place lists what it declares: its messages as they are nested, its own enums and those
of each of its messages. -/
structure ExactLists (arena : Arena) (index : Nat) (file : FileEntry) : Prop where
  messages : Forest arena.messages (file.messages.filter (parentAt arena.messages · == none))
    file.decl.messages file.messages
  enums : file.enums = file.enums.filter (enumParentAt arena.enums · == none)
    ++ file.messages.flatMap arena.enumsAt
  outermostEnums : (file.enums.filter (enumParentAt arena.enums · == none)).map
    (fun place => arena.enums[place]?.map (·.decl)) = file.decl.enums.map some
  extensions : file.extensions.map (fun place => arena.extensions[place]?.map (·.typeName))
    = file.decl.extensions.map fun field => some [field.name]
  fileOfMessage : ∀ place ∈ file.messages, arena.messages[place]?.map (·.file) = some index
  fileOfEnum : ∀ place ∈ file.enums, arena.enums[place]?.map (·.file) = some index
  fileOfExtension : ∀ place ∈ file.extensions, arena.extensions[place]?.map (·.file) = some index

def LastNamed (files : List FileDecl) (name : String) (place : Nat) : Prop :=
  (∃ file, files[place]? = some file ∧ file.name = name) ∧
    ∀ later file, place < later → files[later]? = some file → file.name ≠ name

structure Exact (files : List FileDecl) (generate : List String) (arena : Arena) : Prop where
  decls : arena.files.map (·.decl) = files
  flags : ∀ file ∈ arena.files, file.generate = generate.contains file.decl.name
  toGenerate : List.Forall₂ (LastNamed files) generate arena.toGenerate
  preorder : ∀ file ∈ arena.files, file.messages.map (fun place => arena.messages[place]?.map (·.decl))
    = (MessageDecl.preorders file.decl.messages).map some
  enumOrder : ∀ file ∈ arena.files, file.enums.map (fun place => arena.enums[place]?.map (·.decl))
    = (file.decl.enums ++ (MessageDecl.preorders file.decl.messages).flatMap (·.enums)).map some
  everyMessage : arena.files.flatMap (·.messages) = List.range arena.messages.length
  everyEnum : arena.files.flatMap (·.enums) = List.range arena.enums.length
  everyExtension : arena.files.flatMap (·.extensions) = List.range arena.extensions.length
  lists : ∀ index file, arena.files[index]? = some file → ExactLists arena index file
  links : ∀ place entry, arena.messages[place]? = some entry → ExactLinks arena place entry
  names : ∀ entry ∈ arena.messages, ExactName arena entry
  enumNames : ∀ e ∈ arena.enums, ExactEnumName arena e

/-! ### Links -/

/-- Each message is linked to the places that have it as their parent. -/
structure Linked (arena : Arena) : Prop where
  nested : ∀ (place : Nat) entry, arena.messages[place]? = some entry →
    entry.nested = placesWhere (·.parent == some place) 0 arena.messages
  enums : ∀ (place : Nat) entry, arena.messages[place]? = some entry →
    entry.enums = placesWhere (·.parent == some place) 0 arena.enums
  enumDecls : ∀ (place : Nat) entry, arena.messages[place]? = some entry →
    (arena.enums.filter (·.parent == some place)).map (·.decl) = entry.decl.enums

section

variable {arena : Arena} (file : FileDecl) (generate : List String)

theorem map_decl_enumBlock (place index : Nat) (outer : MessageEntry) :
    (enumBlock index place outer).map (·.decl) = outer.decl.enums := by
  refine List.ext_getElem? fun k => ?_
  rw [enumBlock, List.getElem?_map, List.getElem?_mapIdx, Option.map_map]
  exact Option.map_id_apply

theorem map_decl_outermostEnums (index : Nat) (decls : List EnumDecl) :
    (outermostEnums index decls).map (·.decl) = decls := by
  refine List.ext_getElem? fun k => ?_
  rw [outermostEnums, List.getElem?_map, List.getElem?_mapIdx, Option.map_map]
  exact Option.map_id_apply

theorem placesWhere_linked (p : MessageEntry → Bool)
    (h : ∀ (entry : MessageEntry) nested enums, p { entry with nested, enums } = p entry) (k n m : Nat)
    (messages : List MessageEntry) (enums : List EnumEntry) :
    placesWhere p k (linked n m messages enums) = placesWhere p k messages :=
  placesWhere_congr (map_linked h n m messages enums) k

theorem parent_linked (enums : List EnumEntry) :
    ∀ entry ∈ linked arena.messages.length arena.enums.length (arena.newMessages file) enums,
    ∀ place, entry.parent = some place → arena.messages.length ≤ place := by
  intro entry hEntry place hPlace
  obtain ⟨k, unlinked, hUnlinked, rfl⟩ := mem_linked hEntry
  exact parent_newMessages arena file unlinked (List.mem_of_getElem? hUnlinked) place hPlace

theorem Linked.withFile (h : Linked arena) (hClosed : Closed arena) :
    Linked (arena.withFile generate file) := by
  -- The entries of a file stand behind all that were there and name no parent among those.
  have hOld : ∀ place entry, place < arena.messages.length →
      (arena.withFile generate file).messages[place]? = some entry →
      arena.messages[place]? = some entry := by
    intro place entry hPlace hEntry
    rwa [Arena.withFile, List.getElem?_append_left hPlace] at hEntry
  have hNew : ∀ k entry, (arena.withFile generate file).messages[arena.messages.length + k]? = some entry →
      ∃ unlinked, (arena.newMessages file)[k]? = some unlinked ∧ entry =
        { unlinked with
          nested := placesWhere (·.parent == some (arena.messages.length + k)) arena.messages.length
            (arena.newMessages file)
          enums := placesWhere (·.parent == some (arena.messages.length + k)) arena.enums.length
            (arena.newEnums file) } := by
    intro k entry hEntry
    rw [Arena.withFile, getElem?_linked] at hEntry
    obtain ⟨unlinked, hUnlinked, hEq⟩ := Option.map_eq_some_iff.mp hEntry
    exact ⟨unlinked, hUnlinked, hEq.symm⟩
  constructor
  case nested =>
    intro place entry hEntry
    by_cases hPlace : place < arena.messages.length
    · rw [h.nested place entry (hOld place entry hPlace hEntry), Arena.withFile,
        placesWhere_parent_front (parent_linked file (arena.newEnums file)) hPlace]
    · obtain ⟨k, rfl⟩ := Nat.exists_eq_add_of_le (Nat.le_of_not_lt hPlace)
      obtain ⟨unlinked, -, rfl⟩ := hNew k entry hEntry
      rw [Arena.withFile, placesWhere_parent_back hClosed.parents (Nat.le_add_right ..),
        placesWhere_linked _ fun _ _ _ => rfl]
  case enums =>
    intro place entry hEntry
    by_cases hPlace : place < arena.messages.length
    · rw [h.enums place entry (hOld place entry hPlace hEntry), Arena.withFile,
        placesWhere_parent_front (parent_newEnums arena file) hPlace]
    · obtain ⟨k, rfl⟩ := Nat.exists_eq_add_of_le (Nat.le_of_not_lt hPlace)
      obtain ⟨unlinked, -, rfl⟩ := hNew k entry hEntry
      rw [Arena.withFile, placesWhere_parent_back hClosed.enumParents (Nat.le_add_right ..)]
  case enumDecls =>
    intro place entry hEntry
    by_cases hPlace : place < arena.messages.length
    · rw [← h.enumDecls place entry (hOld place entry hPlace hEntry), Arena.withFile,
        filter_parent_front (parent_newEnums arena file) hPlace]
    · obtain ⟨k, rfl⟩ := Nat.exists_eq_add_of_le (Nat.le_of_not_lt hPlace)
      obtain ⟨unlinked, hUnlinked, rfl⟩ := hNew k entry hEntry
      rw [Arena.withFile, filter_parent_back hClosed.enumParents (Nat.le_add_right ..),
        filter_newEnums arena file hUnlinked, map_decl_enumBlock]

/-! ### Names -/

/-- What an arena holds stays where it is when a file is added. -/
theorem getElem?_messages_withFile {place : Nat} {entry : MessageEntry}
    (h : arena.messages[place]? = some entry) :
    (arena.withFile generate file).messages[place]? = some entry := by
  rw [Arena.withFile, List.getElem?_append_left (List.getElem?_eq_some_iff.mp h).1, h]

theorem getElem?_files_withFile {index : Nat} {entry : FileEntry} (h : arena.files[index]? = some entry) :
    (arena.withFile generate file).files[index]? = some entry := by
  rw [Arena.withFile, List.getElem?_append_left (List.getElem?_eq_some_iff.mp h).1, h]

theorem ExactName.withFile {entry : MessageEntry} (h : ExactName arena entry) :
    ExactName (arena.withFile generate file) entry := by
  constructor
  · exact h.outermost
  · intro place hPlace
    obtain ⟨outer, source, hOuter, hSource, hRest⟩ := h.within place hPlace
    exact ⟨outer, source, getElem?_messages_withFile file generate hOuter,
      getElem?_files_withFile file generate hSource, hRest⟩

theorem ExactEnumName.withFile {e : EnumEntry} (h : ExactEnumName arena e) :
    ExactEnumName (arena.withFile generate file) e := by
  constructor
  · exact h.outermost
  · intro place hPlace
    obtain ⟨outer, hOuter, hRest⟩ := h.within place hPlace
    exact ⟨outer, getElem?_messages_withFile file generate hOuter, hRest⟩

theorem file_under (package : String) (index : Nat) (outer : Option (Nat × MessageEntry)) (i : Nat)
    (m : MessageDecl) : (under package index outer i m).file = index := by
  cases outer <;> rfl

theorem file_newMessages : ∀ entry ∈ arena.newMessages file, entry.file = arena.files.length := by
  intro entry hEntry
  obtain ⟨around, i, hEq, -⟩ := standsIn_blocks _ _ _ _ _ _ entry hEntry
  rw [hEq, file_under]

theorem declaresGroup_iff {fields : List FieldDecl} {name : String} :
    declaresGroup fields name = true ↔ ∃ field ∈ fields, field.type = .group ∧ field.typeName = name := by
  rw [declaresGroup, List.any_eq_true]
  simp only [Bool.and_eq_true, beq_iff_eq]

theorem exactName_newMessages : ∀ entry ∈ arena.newMessages file,
    ExactName (arena.withFile generate file) entry := by
  intro entry hEntry
  obtain ⟨around, i, hEq, hAround⟩ := standsIn_blocks _ _ _ _ _ _ entry hEntry
  have hFile := file_newMessages file entry hEntry
  rcases hAround with rfl | ⟨k, outer, rfl, hOuter⟩
  · rw [hEq]
    exact ⟨fun _ => ⟨rfl, rfl⟩, fun place hPlace => by cases hPlace⟩
  · constructor
    · intro hNone
      rw [hEq] at hNone
      cases hNone
    · intro place hPlace
      rw [hEq] at hPlace
      cases hPlace
      have hFound := getElem?_linked arena file (arena.newEnums file) k
      rw [show (arena.newMessages file)[k]? = some outer from hOuter, Option.map_some] at hFound
      refine ⟨_, arena.newFile generate file, hFound, ?_, ?_, ?_, ?_⟩
      · rw [hFile]
        exact List.getElem?_concat_length
      · rw [hFile]
        exact file_newMessages file outer (List.mem_of_getElem? hOuter)
      · rw [hEq]
        rfl
      · rw [hEq]
        exact declaresGroup_iff

theorem exactEnumName_newEnums : ∀ e ∈ arena.newEnums file,
    ExactEnumName (arena.withFile generate file) e := by
  intro e hE
  rcases List.mem_append.mp hE with hE | hE
  · obtain ⟨i, hI, rfl⟩ := List.mem_mapIdx.mp hE
    refine ⟨fun _ => rfl, ?_⟩
    rintro place ⟨⟩
  · obtain ⟨k, outer, hOuter, hE⟩ := mem_enumBlocks hE
    have hFound := getElem?_linked arena file (arena.newEnums file) k
    rw [hOuter, Option.map_some] at hFound
    have hFile := file_newMessages file outer (List.mem_of_getElem? hOuter)
    obtain ⟨i, hI, rfl⟩ := List.mem_mapIdx.mp hE
    refine ⟨(fun hNone => by cases hNone), ?_⟩
    rintro place ⟨⟩
    exact ⟨_, hFound, hFile, rfl⟩

/-! ### Lists -/

theorem enumsAt_withFile {place : Nat} (h : place < arena.messages.length) :
    (arena.withFile generate file).enumsAt place = arena.enumsAt place := by
  rw [enumsAt, enumsAt, Arena.withFile, List.getElem?_append_left h]

theorem ExactLists.withFile {index : Nat} {entry : FileEntry} (h : ExactLists arena index entry)
    (hMessages : ∀ place ∈ entry.messages, place < arena.messages.length)
    (hEnums : ∀ place ∈ entry.enums, place < arena.enums.length)
    (hExtensions : ∀ place ∈ entry.extensions, place < arena.extensions.length) :
    ExactLists (arena.withFile generate file) index entry := by
  have hMessage : ∀ place ∈ entry.messages, (arena.withFile generate file).messages[place]?
      = arena.messages[place]? := fun place hPlace => List.getElem?_append_left (hMessages place hPlace)
  have hEnum : ∀ place ∈ entry.enums, (arena.withFile generate file).enums[place]? = arena.enums[place]? :=
    fun place hPlace => List.getElem?_append_left (hEnums place hPlace)
  have hExtension : ∀ place ∈ entry.extensions, (arena.withFile generate file).extensions[place]?
      = arena.extensions[place]? := fun place hPlace =>
    List.getElem?_append_left (hExtensions place hPlace)
  have hRoots : entry.messages.filter (parentAt (arena.withFile generate file).messages · == none)
      = entry.messages.filter (parentAt arena.messages · == none) :=
    List.filter_congr fun place hPlace => by rw [parentAt, parentAt, hMessage place hPlace]
  have hEnumRoots : entry.enums.filter (enumParentAt (arena.withFile generate file).enums · == none)
      = entry.enums.filter (enumParentAt arena.enums · == none) :=
    List.filter_congr fun place hPlace => by rw [enumParentAt, enumParentAt, hEnum place hPlace]
  constructor
  case messages =>
    rw [hRoots]
    exact h.messages.mono fun place entry hEntry =>
      ⟨entry, getElem?_messages_withFile file generate hEntry, rfl, rfl⟩
  case enums =>
    rw [hEnumRoots, List.flatMap_congr fun place hPlace =>
      enumsAt_withFile file generate (hMessages place hPlace)]
    exact h.enums
  case outermostEnums =>
    rw [hEnumRoots, ← h.outermostEnums]
    refine List.map_congr_left fun place hPlace => ?_
    rw [hEnum place (List.mem_filter.mp hPlace).1]
  case extensions =>
    rw [← h.extensions]
    exact List.map_congr_left fun place hPlace => by rw [hExtension place hPlace]
  case fileOfMessage => exact fun place hPlace => by rw [hMessage place hPlace, h.fileOfMessage place hPlace]
  case fileOfEnum => exact fun place hPlace => by rw [hEnum place hPlace, h.fileOfEnum place hPlace]
  case fileOfExtension => exact fun place hPlace => by rw [hExtension place hPlace, h.fileOfExtension place hPlace]

theorem file_newEnums : ∀ e ∈ arena.newEnums file, e.file = arena.files.length := by
  intro e hE
  rcases List.mem_append.mp hE with hE | hE
  · obtain ⟨i, hI, rfl⟩ := List.mem_mapIdx.mp hE
    rfl
  · obtain ⟨k, outer, -, hE⟩ := mem_enumBlocks hE
    obtain ⟨i, hI, rfl⟩ := List.mem_mapIdx.mp hE
    rfl

/-- The outermost among the new enums come first. -/
theorem placesWhere_outermostEnums (n : Nat) :
    placesWhere (·.parent == none) n (arena.newEnums file)
      = List.range' n (outermostEnums arena.files.length file.enums).length := by
  rw [newEnums, placesWhere_append, placesWhere_eq_range' fun e hE => by
    rw [parent_outermostEnums e hE]; exact beq_self_eq_true _, List.append_right_eq_self]
  refine placesWhere_eq_nil (fun e hE => ?_) _
  obtain ⟨k, hK, -⟩ := parent_enumBlocks e hE
  rw [hK]
  rfl

theorem mem_of_mem_range' {α : Type} {as bs : List α} {place : Nat}
    (h : place ∈ List.range' as.length bs.length) : ∃ b ∈ bs, (as ++ bs)[place]? = some b := by
  obtain ⟨hLow, hHigh⟩ := List.mem_range'_1.mp h
  obtain ⟨k, rfl⟩ := Nat.exists_eq_add_of_le hLow
  have hBound := Nat.lt_of_add_lt_add_left hHigh
  rw [List.getElem?_append_right hLow, Nat.add_sub_cancel_left, List.getElem?_eq_getElem hBound]
  exact ⟨bs[k], List.getElem_mem hBound, rfl⟩

theorem filter_outermostEnums : (arena.newEnums file).filter (·.parent == none)
    = outermostEnums arena.files.length file.enums := by
  rw [newEnums, List.filter_append, List.filter_eq_self.mpr fun e hE => by
    rw [parent_outermostEnums e hE]; exact beq_self_eq_true _, List.append_right_eq_self,
    List.filter_eq_nil_iff]
  intro e hE
  obtain ⟨k, hK, -⟩ := parent_enumBlocks e hE
  rw [hK]
  exact Bool.false_ne_true

theorem enumsAt_newFile {place : Nat}
    (h : place ∈ List.range' arena.messages.length (arena.newMessages file).length) :
    (arena.withFile generate file).enumsAt place = placesWhere (·.parent == some place)
      (arena.enums.length + (outermostEnums arena.files.length file.enums).length)
      (enumBlocks arena.files.length arena.messages.length (arena.newMessages file)) := by
  obtain ⟨hLow, hHigh⟩ := List.mem_range'_1.mp h
  obtain ⟨k, rfl⟩ := Nat.exists_eq_add_of_le hLow
  have hBound := Nat.lt_of_add_lt_add_left hHigh
  rw [enumsAt, Arena.withFile, getElem?_linked, List.getElem?_eq_getElem hBound]
  change placesWhere _ _ (outermostEnums _ _ ++ _) = _
  rw [placesWhere_append, List.append_left_eq_self]
  refine placesWhere_eq_nil (fun e hE => ?_) _
  rw [parent_outermostEnums e hE]
  rfl

theorem exactLists_newFile :
    ExactLists (arena.withFile generate file) arena.files.length (arena.newFile generate file) := by
  have hRoots : (arena.newFile generate file).messages.filter
      (parentAt (arena.withFile generate file).messages · == none)
      = placesWhere (·.parent == none) arena.messages.length (arena.newMessages file) := by
    refine filter_range'_eq fun k entry hEntry => ?_
    rw [parentAt, Arena.withFile, getElem?_linked, hEntry]
    rfl
  have hEnumRoots : (arena.newFile generate file).enums.filter
      (enumParentAt (arena.withFile generate file).enums · == none)
      = placesWhere (·.parent == none) arena.enums.length (arena.newEnums file) := by
    refine filter_range'_eq fun k e hE => ?_
    rw [enumParentAt, Arena.withFile, List.getElem?_append_right (Nat.le_add_right ..),
      Nat.add_sub_cancel_left, hE]
    rfl
  constructor
  case messages =>
    rw [hRoots]
    exact forest_newMessages arena file (arena.newEnums file)
  case enums =>
    rw [hEnumRoots, placesWhere_outermostEnums, newFile,
      List.flatMap_congr fun place hPlace => enumsAt_newFile file generate hPlace,
      flatMap_placesWhere_enumBlocks, newEnums, List.length_append, ← List.range'_append_1]
  case outermostEnums =>
    rw [hEnumRoots]
    have hDecls := congrArg (List.map (Option.map (·.decl)))
      (map_getElem?_placesWhere (·.parent == none) arena.enums (arena.newEnums file))
    rw [List.map_map, List.map_map, filter_outermostEnums] at hDecls
    have hMap := congrArg (List.map some) (map_decl_outermostEnums arena.files.length file.enums)
    rw [List.map_map] at hMap
    exact hDecls.trans hMap
  case extensions =>
    have hExtensions := congrArg (List.map (Option.map (·.typeName)))
      (map_range'_append arena.extensions (file.extensions.map fun field =>
        ⟨arena.files.length, [field.name]⟩))
    rw [List.map_map, List.map_map, List.map_map, List.length_map] at hExtensions
    exact hExtensions
  case fileOfMessage =>
    intro place hPlace
    rw [newFile, ← length_linked arena.messages.length arena.enums.length (arena.newMessages file)
      (arena.newEnums file)] at hPlace
    obtain ⟨entry, hEntry, hFound⟩ := mem_of_mem_range' hPlace
    rw [Arena.withFile, hFound]
    obtain ⟨k, unlinked, hUnlinked, rfl⟩ := mem_linked hEntry
    exact congrArg some (file_newMessages file unlinked (List.mem_of_getElem? hUnlinked))
  case fileOfEnum =>
    intro place hPlace
    obtain ⟨e, hE, hFound⟩ := mem_of_mem_range' hPlace
    rw [Arena.withFile, hFound]
    exact congrArg some (file_newEnums file e hE)
  case fileOfExtension =>
    intro place hPlace
    rw [newFile, ← List.length_map fun field : FieldDecl =>
      (⟨arena.files.length, [field.name]⟩ : ExtensionEntry)] at hPlace
    obtain ⟨extension, hExtension, hFound⟩ := mem_of_mem_range' hPlace
    obtain ⟨field, -, rfl⟩ := List.mem_map.mp hExtension
    rw [Arena.withFile, hFound]
    rfl

end

/-! ### Runs -/

structure Sound (arena : Arena) : Prop where
  closed : Closed arena
  linked : Linked arena
  everyMessage : arena.files.flatMap (·.messages) = List.range arena.messages.length
  everyEnum : arena.files.flatMap (·.enums) = List.range arena.enums.length
  everyExtension : arena.files.flatMap (·.extensions) = List.range arena.extensions.length
  lists : ∀ index file, arena.files[index]? = some file → ExactLists arena index file
  names : ∀ entry ∈ arena.messages, ExactName arena entry
  enumNames : ∀ e ∈ arena.enums, ExactEnumName arena e

theorem Sound.withFile {arena : Arena} (h : Sound arena) (file : FileDecl) (generate : List String) :
    Sound (arena.withFile generate file) := by
  have hExtensions : ∀ source ∈ arena.files, ∀ place ∈ source.extensions,
      place < arena.extensions.length := by
    intro source hSource place hPlace
    rw [← List.mem_range, ← h.everyExtension]
    exact List.mem_flatMap_of_mem hSource hPlace
  constructor
  case closed => exact h.closed.withFile file generate
  case linked => exact h.linked.withFile file generate h.closed
  case everyMessage =>
    rw [Arena.withFile, List.flatMap_append, h.everyMessage, List.flatMap_singleton, newFile,
      List.length_append, length_linked, List.range_eq_range', List.range_eq_range',
      ← List.range'_append_1, Nat.zero_add]
  case everyEnum =>
    rw [Arena.withFile, List.flatMap_append, h.everyEnum, List.flatMap_singleton, newFile,
      List.length_append, List.range_eq_range', List.range_eq_range', ← List.range'_append_1,
      Nat.zero_add]
  case everyExtension =>
    rw [Arena.withFile, List.flatMap_append, h.everyExtension, List.flatMap_singleton, newFile,
      List.length_append, List.length_map, List.range_eq_range', List.range_eq_range',
      ← List.range'_append_1, Nat.zero_add]
  case lists =>
    intro index source hSource
    by_cases hIndex : index < arena.files.length
    · rw [Arena.withFile, List.getElem?_append_left hIndex] at hSource
      have hMem := List.mem_of_getElem? hSource
      exact (h.lists index source hSource).withFile file generate (h.closed.messages source hMem)
        (h.closed.enums source hMem) (hExtensions source hMem)
    · rw [Arena.withFile, List.getElem?_append_right (Nat.le_of_not_lt hIndex)] at hSource
      obtain ⟨k, rfl⟩ := Nat.exists_eq_add_of_le (Nat.le_of_not_lt hIndex)
      rw [Nat.add_sub_cancel_left] at hSource
      cases k with
      | zero =>
        cases hSource
        exact exactLists_newFile file generate
      | succ k => cases hSource
  case names =>
    intro entry hEntry
    rcases List.mem_append.mp hEntry with hEntry | hEntry
    · exact (h.names entry hEntry).withFile file generate
    · obtain ⟨k, unlinked, hUnlinked, rfl⟩ := mem_linked hEntry
      have hName := exactName_newMessages file generate unlinked (List.mem_of_getElem? hUnlinked)
      exact ⟨hName.outermost, hName.within⟩
  case enumNames =>
    intro e hE
    rcases List.mem_append.mp hE with hE | hE
    · exact (h.enumNames e hE).withFile file generate
    · exact exactEnumName_newEnums file generate e hE

theorem sound_empty (toGenerate : List Nat) : Sound { toGenerate } := by
  constructor
  case closed => constructor <;> exact fun _ h => absurd h List.not_mem_nil
  case linked => constructor <;> exact fun _ _ h => by cases h
  case everyMessage => rfl
  case everyEnum => rfl
  case everyExtension => rfl
  case lists => exact fun _ _ h => by cases h
  case names => exact fun _ h => absurd h List.not_mem_nil
  case enumNames => exact fun _ h => absurd h List.not_mem_nil

theorem sound_foldl {arena : Arena} (h : Sound arena) (files : List FileDecl) (generate : List String) :
    Sound (files.foldl (withFile generate) arena) := by
  induction files generalizing arena with
  | nil => exact h
  | cons file rest ih => exact ih (h.withFile file generate)

theorem ofDecls_with (files : List FileDecl) (generate : List String) (toGenerate : List Nat) :
    { ofDecls files generate with toGenerate } = files.foldl (withFile generate) { toGenerate } := by
  induction files using List.reverseRecOn with
  | nil => rfl
  | append_singleton files file ih =>
    rw [ofDecls_concat, List.foldl_append, ← ih]
    rfl

/-! ### Files by name -/

theorem lastNamed_concat {files : List FileDecl} {file : FileDecl} {name : String} {place : Nat}
    (hName : file.name ≠ name) (h : LastNamed files name place) : LastNamed (files ++ [file]) name place := by
  obtain ⟨⟨found, hFound, hFoundName⟩, hLater⟩ := h
  constructor
  · exact ⟨found, by rw [List.getElem?_append_left (List.getElem?_eq_some_iff.mp hFound).1, hFound],
      hFoundName⟩
  · intro later other hLess hOther
    by_cases hBound : later < files.length
    · rw [List.getElem?_append_left hBound] at hOther
      exact hLater later other hLess hOther
    · rw [List.getElem?_append_right (Nat.le_of_not_lt hBound)] at hOther
      rw [List.mem_singleton.mp (List.mem_of_getElem? hOther)]
      exact hName

theorem lastNamed_length (files : List FileDecl) (file : FileDecl) :
    LastNamed (files ++ [file]) file.name files.length := by
  constructor
  · exact ⟨file, List.getElem?_concat_length, rfl⟩
  · intro later other hLess hOther
    have hBound := (List.getElem?_eq_some_iff.mp hOther).1
    rw [List.length_append, List.length_singleton] at hBound
    omega

/-- An arena knows the last file with each name. -/
theorem names_ofDecls (files : List FileDecl) (generate : List String) (name : String) :
    (∀ place, (ofDecls files generate).names.get? name = some place → LastNamed files name place) ∧
      ((ofDecls files generate).names.get? name).isNone = !files.any (·.name == name) := by
  induction files using List.reverseRecOn with
  | nil => exact ⟨fun _ h => (by cases h), rfl⟩
  | append_singleton files file ih =>
    have hFiles : (ofDecls files generate).files.length = files.length := by
      have hGraph := congrArg List.length (graph_ofDecls files generate)
      rwa [graph, List.length_map, List.length_map] at hGraph
    rw [ofDecls_concat, Arena.withFile, Table.get?_insert, List.any_append]
    split
    · rename_i hName
      subst hName
      refine ⟨?_, by simp⟩
      rintro place ⟨⟩
      exact hFiles ▸ lastNamed_length files file
    · rename_i hName
      refine ⟨fun place hPlace => lastNamed_concat (Ne.symm hName) (ih.1 place hPlace), ?_⟩
      rw [ih.2]
      simp [Ne.symm hName]

/-! ### Everything -/

theorem Sound.exactLinks {arena : Arena} (h : Sound arena) {place : Nat} {entry : MessageEntry}
    (hEntry : arena.messages[place]? = some entry) : ExactLinks arena place entry := by
  have hNested := h.linked.nested place entry hEntry
  have hEnums := h.linked.enums place entry hEntry
  have hListed : place ∈ arena.files.flatMap (·.messages) := by
    rw [h.everyMessage]
    exact List.mem_range.mpr (List.getElem?_eq_some_iff.mp hEntry).1
  obtain ⟨file, hFile, hPlace⟩ := List.mem_flatMap.mp hListed
  obtain ⟨index, hIndex⟩ := List.mem_iff_getElem?.mp hFile
  obtain ⟨found, below, hFound, hForest⟩ := (h.lists index file hIndex).messages.at place hPlace
  rw [hEntry] at hFound
  cases hFound
  constructor
  case nestedDecls => exact hForest.map_decl
  case enumDecls =>
    have hDecls := congrArg (List.map (Option.map (·.decl)))
      (map_getElem?_placesWhere (·.parent == some place) [] arena.enums)
    have hSome := congrArg (List.map some) (h.linked.enumDecls place entry hEntry)
    rw [List.map_map, List.map_map] at hDecls
    rw [List.map_map] at hSome
    exact hEnums ▸ hDecls.trans hSome
  case mem_nested_iff =>
    intro child
    rw [hNested, mem_placesWhere, parentAt, Option.bind_eq_some_iff]
    simp
  case mem_enums_iff =>
    intro child
    rw [hEnums, mem_placesWhere, enumParentAt, Option.bind_eq_some_iff]
    simp
  case nodup_nested => exact hNested ▸ nodup_placesWhere _ _ _
  case nodup_enums => exact hEnums ▸ nodup_placesWhere _ _ _

theorem Sound.preorder {arena : Arena} (h : Sound arena) {file : FileEntry} (hFile : file ∈ arena.files) :
    file.messages.map (fun place => arena.messages[place]?.map (·.decl))
      = (MessageDecl.preorders file.decl.messages).map some := by
  obtain ⟨index, hIndex⟩ := List.mem_iff_getElem?.mp hFile
  exact (h.lists index file hIndex).messages.map_decl_all

theorem Sound.enumOrder {arena : Arena} (h : Sound arena) {file : FileEntry} (hFile : file ∈ arena.files) :
    file.enums.map (fun place => arena.enums[place]?.map (·.decl))
      = (file.decl.enums ++ (MessageDecl.preorders file.decl.messages).flatMap (·.enums)).map some := by
  obtain ⟨index, hIndex⟩ := List.mem_iff_getElem?.mp hFile
  have hLists := h.lists index file hIndex
  let declared (m : Option MessageDecl) : List (Option EnumDecl) := (m.map fun m => m.enums.map some).getD []
  have hEach : ∀ place ∈ file.messages, (arena.enumsAt place).map (fun e => arena.enums[e]?.map (·.decl))
      = declared (arena.messages[place]?.map (·.decl)) := by
    intro place hPlace
    unfold enumsAt
    cases hEntry : arena.messages[place]? with
    | none => rfl
    | some entry => exact (h.exactLinks hEntry).enumDecls
  have hMessages : (file.messages.flatMap arena.enumsAt).map (fun e => arena.enums[e]?.map (·.decl))
      = ((MessageDecl.preorders file.decl.messages).flatMap (·.enums)).map some :=
    calc (file.messages.flatMap arena.enumsAt).map (fun e => arena.enums[e]?.map (·.decl))
      _ = file.messages.flatMap fun place => declared (arena.messages[place]?.map (·.decl)) := by
        rw [List.map_flatMap, List.flatMap_congr hEach]
      _ = (file.messages.map fun place => arena.messages[place]?.map (·.decl)).flatMap declared :=
        (List.flatMap_map ..).symm
      _ = ((MessageDecl.preorders file.decl.messages).map some).flatMap declared := by
        rw [h.preorder hFile]
      _ = ((MessageDecl.preorders file.decl.messages).flatMap (·.enums)).map some := by
        rw [List.flatMap_map, List.map_flatMap]
        rfl
  rw [hLists.enums, List.map_append, hLists.outermostEnums, hMessages, List.map_append]

theorem files_ofDecls (files : List FileDecl) (generate : List String) :
    (ofDecls files generate).files.map (·.decl) = files ∧
      ∀ file ∈ (ofDecls files generate).files, file.generate = generate.contains file.decl.name := by
  induction files using List.reverseRecOn with
  | nil => exact ⟨rfl, fun _ h => absurd h List.not_mem_nil⟩
  | append_singleton files file ih =>
    rw [ofDecls_concat]
    constructor
    · rw [Arena.withFile, List.map_append, ih.1]
      rfl
    · intro source hSource
      rcases List.mem_append.mp hSource with hSource | hSource
      · exact ih.2 source hSource
      · rw [List.mem_singleton.mp hSource]
        rfl

theorem exact_ofDecls {files : List FileDecl} {generate : List String} {toGenerate : List Nat}
    (h : List.Forall₂ (LastNamed files) generate toGenerate) :
    Exact files generate { ofDecls files generate with toGenerate } := by
  have hSound : Sound { ofDecls files generate with toGenerate } :=
    ofDecls_with files generate toGenerate ▸ sound_foldl (sound_empty toGenerate) files generate
  obtain ⟨hDecls, hFlags⟩ := files_ofDecls files generate
  constructor
  case decls => exact hDecls
  case flags => exact hFlags
  case toGenerate => exact h
  case preorder => exact fun file hFile => hSound.preorder hFile
  case enumOrder => exact fun file hFile => hSound.enumOrder hFile
  case everyMessage => exact hSound.everyMessage
  case everyEnum => exact hSound.everyEnum
  case everyExtension => exact hSound.everyExtension
  case lists => exact hSound.lists
  case links => exact fun place entry hEntry => hSound.exactLinks hEntry
  case names => exact hSound.names
  case enumNames => exact hSound.enumNames

/-- Files are refused if none is to be generated, or for the first name that none of them has. Otherwise
they are held exactly, whatever is nested in what. -/
theorem ofFiles_exact (files : List FileDecl) (generate : List String) :
    if generate = [] then ofFiles files generate = .error (.request .noFilesToGenerate)
    else match generate.find? fun name => !files.any (·.name == name) with
      | some name => ofFiles files generate = .error (.request (.fileNotFound name))
      | none => ∃ arena, ofFiles files generate = .ok arena ∧ Exact files generate arena := by
  have hMissing : (fun name => ((ofDecls files generate).names.get? name).isNone)
      = fun name => !files.any (·.name == name) := funext fun name => (names_ofDecls files generate name).2
  rw [ofFiles_eq, hMissing]
  split
  · rename_i hEmpty
    rw [hEmpty]
    rfl
  · rename_i hEmpty
    rw [if_neg (mt List.isEmpty_iff.mp hEmpty)]
    cases hFound : generate.find? fun name => !files.any (·.name == name) with
    | some name => rfl
    | none =>
      refine ⟨_, rfl, exact_ofDecls ((forall₂_filterMap ?_).imp fun name place hPlace =>
        (names_ofDecls files generate name).1 place hPlace)⟩
      intro name hName
      have hHas := List.find?_eq_none.mp hFound name hName
      rw [← (names_ofDecls files generate name).2, Option.isNone_iff_eq_none, ← ne_eq,
        ← Option.isSome_iff_ne_none] at hHas
      exact hHas

end Arena

end ProtoBind
