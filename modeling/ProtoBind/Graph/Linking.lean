import ProtoBind.Graph.Nesting

/-!
# Linking in arenas

What is linked to a message is what it declares, so no file is refused, and what a file adds to an
arena can be said outright.
-/

set_option autoImplicit false

namespace ProtoBind

namespace Arena

/-! ### Links -/

theorem getElem?_link (parentOf : Nat → Option Nat) (add : Nat → MessageEntry → MessageEntry)
    (entries : List MessageEntry) (child place : Nat) :
    (link parentOf add entries child)[place]? =
      entries[place]?.map fun entry => if parentOf child == some place then add child entry else entry := by
  rw [link]
  cases hParent : parentOf child with
  | none => simp
  | some parent =>
    rw [List.getElem?_modify]
    by_cases hPlace : parent = place <;> cases entries[place]? <;> simp [hPlace]

theorem getElem?_linkAll (parentOf : Nat → Option Nat) (add : Nat → MessageEntry → MessageEntry)
    (entries : List MessageEntry) (children : List Nat) (place : Nat) :
    (linkAll parentOf add entries children)[place]? = entries[place]?.map fun entry =>
      (children.filter (parentOf · == some place)).foldl (fun entry child => add child entry) entry := by
  rw [linkAll]
  induction children generalizing entries with
  | nil => simp
  | cons child rest ih =>
    rw [List.foldl_cons, ih, getElem?_link, Option.map_map]
    congr 1
    funext entry
    rw [Function.comp_apply, List.filter_cons]
    split <;> rfl

theorem getElem?_linkMessages (entries : List MessageEntry) (places : List Nat) (place : Nat) :
    (linkMessages entries places)[place]? = entries[place]?.map fun entry =>
      { entry with nested := entry.nested ++ places.filter (parentAt entries · == some place) } := by
  have hAll : ∀ (children : List Nat) (entry : MessageEntry),
      children.foldl (fun entry child => { entry with nested := entry.nested ++ [child] }) entry
        = { entry with nested := entry.nested ++ children } := by
    intro children
    induction children with
    | nil => simp
    | cons child rest ih => simp [ih]
  rw [linkMessages, getElem?_linkAll]
  simp only [hAll]

theorem getElem?_linkEnums (enums : List EnumEntry) (entries : List MessageEntry) (places : List Nat)
    (place : Nat) :
    (linkEnums enums entries places)[place]? = entries[place]?.map fun entry =>
      { entry with enums := entry.enums ++ places.filter (enumParentAt enums · == some place) } := by
  have hAll : ∀ (children : List Nat) (entry : MessageEntry),
      children.foldl (fun entry child => { entry with enums := entry.enums ++ [child] }) entry
        = { entry with enums := entry.enums ++ children } := by
    intro children
    induction children with
    | nil => simp
    | cons child rest ih => simp [ih]
  rw [linkEnums, getElem?_linkAll]
  simp only [hAll]

theorem lacking?_eq_none {linked declared : MessageEntry → Nat} {entries : List MessageEntry}
    {places : List Nat}
    (h : ∀ place ∈ places, ∀ entry, entries[place]? = some entry → linked entry = declared entry) :
    lacking? linked declared entries places = none := by
  rw [lacking?, List.findSome?_eq_none_iff]
  intro entry hEntry
  obtain ⟨place, hPlace, hFound⟩ := List.mem_filterMap.mp hEntry
  exact if_pos (h place hPlace entry hFound)

/-! ### Enums -/

/-- The enums that the messages from the `n`-th place on declare. -/
def enumBlocks (file n : Nat) : List MessageEntry → List EnumEntry
  | [] => []
  | entry :: rest => enumBlock file n entry ++ enumBlocks file (n + 1) rest

theorem parent_enumBlock {file place : Nat} {outer : MessageEntry} :
    ∀ e ∈ enumBlock file place outer, e.parent = some place := by
  intro e hE
  obtain ⟨i, hI, rfl⟩ := List.mem_mapIdx.mp hE
  rfl

theorem mem_enumBlocks {index n : Nat} {entries : List MessageEntry} {e : EnumEntry}
    (h : e ∈ enumBlocks index n entries) :
    ∃ k outer, entries[k]? = some outer ∧ e ∈ enumBlock index (n + k) outer := by
  induction entries generalizing n with
  | nil => cases h
  | cons first rest ih =>
    rcases List.mem_append.mp h with hFirst | hRest
    · exact ⟨0, first, rfl, hFirst⟩
    · obtain ⟨k, outer, hOuter, hE⟩ := ih hRest
      exact ⟨k + 1, outer, hOuter, by rwa [Nat.add_assoc, Nat.add_comm 1] at hE⟩

theorem parent_enumBlocks {file : Nat} {entries : List MessageEntry} {n : Nat} :
    ∀ e ∈ enumBlocks file n entries, ∃ k, e.parent = some (n + k) ∧ k < entries.length := by
  intro e hE
  obtain ⟨k, outer, hOuter, hE⟩ := mem_enumBlocks hE
  exact ⟨k, parent_enumBlock e hE, (List.getElem?_eq_some_iff.mp hOuter).1⟩

theorem parent_outermostEnums {file : Nat} {decls : List EnumDecl} :
    ∀ e ∈ outermostEnums file decls, e.parent = none := by
  intro e hE
  obtain ⟨i, hI, rfl⟩ := List.mem_mapIdx.mp hE
  rfl

/-- The enums that stand in a message are those that it declares. -/
theorem filter_enumBlocks (file : Nat) {entries : List MessageEntry} {n k : Nat} {entry : MessageEntry}
    (h : entries[k]? = some entry) :
    (enumBlocks file n entries).filter (·.parent == some (n + k)) = enumBlock file (n + k) entry := by
  induction entries generalizing n k with
  | nil => cases h
  | cons first rest ih =>
    rw [enumBlocks, List.filter_append]
    cases k with
    | zero =>
      cases h
      rw [List.filter_eq_self.mpr fun e hE => by rw [parent_enumBlock e hE]; exact beq_self_eq_true _,
        List.filter_eq_nil_iff.mpr, List.append_nil]
      · rfl
      · intro e hE
        obtain ⟨j, hJ, -⟩ := parent_enumBlocks e hE
        rw [hJ, beq_iff_eq, Option.some.injEq]
        omega
    | succ k =>
      rw [List.filter_eq_nil_iff.mpr, List.nil_append, ← Nat.add_assoc, Nat.add_right_comm]
      · exact ih h
      · intro e hE
        rw [parent_enumBlock e hE, beq_iff_eq, Option.some.injEq]
        omega

/-- The enums of the messages come in the order of the messages. -/
theorem flatMap_placesWhere_enumBlocks (file : Nat) (entries : List MessageEntry) (n m : Nat) :
    (List.range' n entries.length).flatMap
        (fun place => placesWhere (·.parent == some place) m (enumBlocks file n entries))
      = List.range' m (enumBlocks file n entries).length := by
  induction entries generalizing n m with
  | nil => rfl
  | cons first rest ih =>
    rw [List.length_cons, List.range'_succ, List.flatMap_cons, enumBlocks, placesWhere_append,
      placesWhere_eq_range' fun e hE => by rw [parent_enumBlock e hE]; exact beq_self_eq_true _,
      placesWhere_eq_nil, List.append_nil, List.length_append, ← List.range'_append_1, ← ih]
    · congr 1
      rw [List.flatMap_def, List.flatMap_def]
      refine congrArg List.flatten (List.map_congr_left fun place hPlace => ?_)
      rw [placesWhere_append, placesWhere_eq_nil, List.nil_append]
      intro e hE
      have hLow := (List.mem_range'_1.mp hPlace).1
      rw [parent_enumBlock e hE, beq_eq_false_iff_ne]
      intro hSame
      cases hSame
      omega
    · intro e hE
      obtain ⟨k, hK, -⟩ := parent_enumBlocks e hE
      rw [hK, beq_eq_false_iff_ne]
      intro hSame
      have := Option.some.inj hSame
      omega

/-! ### What a file adds -/

/-- Messages behind `n` others and enums behind `m` others, the messages linked to what stands in them. -/
def linked (n m : Nat) (messages : List MessageEntry) (enums : List EnumEntry) : List MessageEntry :=
  messages.mapIdx fun k entry =>
    { entry with nested := placesWhere (·.parent == some (n + k)) n messages,
                 enums := placesWhere (·.parent == some (n + k)) m enums }

def newMessages (arena : Arena) (file : FileDecl) : List MessageEntry :=
  blocks file.package arena.files.length none 0 arena.messages.length file.messages

def newEnums (arena : Arena) (file : FileDecl) : List EnumEntry :=
  outermostEnums arena.files.length file.enums
    ++ enumBlocks arena.files.length arena.messages.length (arena.newMessages file)

def newFile (generate : List String) (arena : Arena) (file : FileDecl) : FileEntry where
  decl := file
  generate := generate.contains file.name
  messages := List.range' arena.messages.length (arena.newMessages file).length
  enums := List.range' arena.enums.length (arena.newEnums file).length
  extensions := List.range' arena.extensions.length file.extensions.length

def withFile (generate : List String) (arena : Arena) (file : FileDecl) : Arena where
  files := arena.files ++ [arena.newFile generate file]
  messages := arena.messages
    ++ linked arena.messages.length arena.enums.length (arena.newMessages file) (arena.newEnums file)
  enums := arena.enums ++ arena.newEnums file
  extensions := arena.extensions ++ file.extensions.map fun field => ⟨arena.files.length, [field.name]⟩
  names := arena.names.insert file.name arena.files.length
  toGenerate := arena.toGenerate

theorem eq_append_mapIdx {α : Type} {as bs result : List α} {f : Nat → α → α}
    (h : ∀ place : Nat, result[place]? = (as ++ bs)[place]?.map (f place))
    (hFront : ∀ place < as.length, ∀ a, f place a = a) :
    result = as ++ bs.mapIdx fun k b => f (as.length + k) b := by
  refine List.ext_getElem? fun place => ?_
  rw [h]
  by_cases hPlace : place < as.length
  · rw [List.getElem?_append_left hPlace, List.getElem?_append_left hPlace,
      List.getElem?_eq_getElem hPlace, Option.map_some, hFront place hPlace]
  · have hLe := Nat.le_of_not_lt hPlace
    rw [List.getElem?_append_right hLe, List.getElem?_append_right hLe, List.getElem?_mapIdx,
      Nat.add_sub_cancel' hLe]

/-- The new elements with a parent at a place, told by where they lie. -/
theorem filter_parentOf {α : Type} {as bs : List α} {parentOf : Nat → Option Nat}
    {parent : α → Option Nat} (h : ∀ place : Nat, parentOf place = (as ++ bs)[place]?.bind parent)
    (place : Nat) :
    (List.range' as.length bs.length).filter (parentOf · == some place)
      = placesWhere (parent · == some place) as.length bs := by
  apply filter_range'_eq
  intro k b hB
  rw [h, List.getElem?_append_right (Nat.le_add_right ..), Nat.add_sub_cancel_left, hB]
  rfl

section

variable (arena : Arena) (file : FileDecl)

theorem parent_newMessages : ∀ entry ∈ arena.newMessages file, ∀ place, entry.parent = some place →
    arena.messages.length ≤ place := by
  intro entry hEntry place hPlace
  rcases parentIn_blocks _ _ _ _ _ _ entry hEntry with hNone | ⟨other, hOther, hLow, -⟩
  · rw [hPlace] at hNone
    cases hNone
  · rw [hPlace] at hOther
    cases hOther
    exact hLow

theorem parent_newEnums : ∀ e ∈ arena.newEnums file, ∀ place, e.parent = some place →
    arena.messages.length ≤ place := by
  intro e hE place hPlace
  rcases List.mem_append.mp hE with hE | hE
  · rw [parent_outermostEnums e hE] at hPlace
    cases hPlace
  · obtain ⟨k, hK, -⟩ := parent_enumBlocks e hE
    rw [hK] at hPlace
    cases hPlace
    exact Nat.le_add_right ..

theorem unlinked_newMessages : ∀ entry ∈ arena.newMessages file, entry.nested = [] ∧ entry.enums = [] := by
  intro entry hEntry
  obtain ⟨around, i, hEq, -⟩ := standsIn_blocks _ _ _ _ _ _ entry hEntry
  rw [hEq]
  cases around <;> exact ⟨rfl, rfl⟩

theorem linkMessages_newMessages :
    linkMessages (arena.messages ++ arena.newMessages file)
        (List.range' arena.messages.length (arena.newMessages file).length)
      = arena.messages ++
        linked arena.messages.length arena.enums.length (arena.newMessages file) [] := by
  have hFilter : ∀ place, (List.range' arena.messages.length (arena.newMessages file).length).filter
      (parentAt (arena.messages ++ arena.newMessages file) · == some place)
      = placesWhere (·.parent == some place) arena.messages.length (arena.newMessages file) :=
    filter_parentOf fun _ => rfl
  rw [eq_append_mapIdx (getElem?_linkMessages _ _), linked]
  · congr 1
    refine List.ext_getElem? fun k => ?_
    rw [List.getElem?_mapIdx, List.getElem?_mapIdx]
    cases hEntry : (arena.newMessages file)[k]? with
    | none => rfl
    | some entry =>
      obtain ⟨hNested, hEnums⟩ := unlinked_newMessages arena file entry (List.mem_of_getElem? hEntry)
      simp only [Option.map_some, hFilter, hNested, hEnums, List.nil_append, placesWhere]
  · intro place hPlace entry
    rw [hFilter, placesWhere_eq_nil, List.append_nil]
    intro other hOther
    rw [beq_eq_false_iff_ne]
    exact fun hParent => Nat.lt_irrefl _
      (Nat.lt_of_lt_of_le hPlace (parent_newMessages arena file other hOther place hParent))

theorem linkEnums_newEnums :
    linkEnums (arena.enums ++ arena.newEnums file)
        (arena.messages ++ linked arena.messages.length arena.enums.length (arena.newMessages file) [])
        (List.range' arena.enums.length (arena.newEnums file).length)
      = arena.messages ++ linked arena.messages.length arena.enums.length (arena.newMessages file)
        (arena.newEnums file) := by
  have hFilter : ∀ place, (List.range' arena.enums.length (arena.newEnums file).length).filter
      (enumParentAt (arena.enums ++ arena.newEnums file) · == some place)
      = placesWhere (·.parent == some place) arena.enums.length (arena.newEnums file) :=
    filter_parentOf fun _ => rfl
  rw [eq_append_mapIdx (getElem?_linkEnums _ _ _), linked, linked, List.mapIdx_mapIdx]
  · congr 1
    refine List.ext_getElem? fun k => ?_
    rw [List.getElem?_mapIdx, List.getElem?_mapIdx]
    simp only [hFilter]
    rfl
  · intro place hPlace entry
    rw [hFilter, placesWhere_eq_nil, List.append_nil]
    intro other hOther
    rw [beq_eq_false_iff_ne]
    exact fun hParent => Nat.lt_irrefl _
      (Nat.lt_of_lt_of_le hPlace (parent_newEnums arena file other hOther place hParent))

theorem getElem?_linked (enums : List EnumEntry) (k : Nat) :
    (arena.messages ++ linked arena.messages.length arena.enums.length (arena.newMessages file)
        enums)[arena.messages.length + k]?
      = (arena.newMessages file)[k]?.map fun entry =>
        { entry with
          nested := placesWhere (·.parent == some (arena.messages.length + k)) arena.messages.length
            (arena.newMessages file)
          enums := placesWhere (·.parent == some (arena.messages.length + k)) arena.enums.length enums } := by
  rw [List.getElem?_append_right (Nat.le_add_right ..), Nat.add_sub_cancel_left, linked,
    List.getElem?_mapIdx]

theorem linkedFrom_newMessages (enums : List EnumEntry) :
    LinkedFrom (arena.messages ++ linked arena.messages.length arena.enums.length
      (arena.newMessages file) enums) arena.messages.length (arena.newMessages file) := by
  intro k entry hEntry
  have hLinked := getElem?_linked arena file enums k
  rw [hEntry, Option.map_some] at hLinked
  exact ⟨_, hLinked, rfl, rfl⟩

theorem enumsWithin_newMessages (enums : List EnumEntry) :
    (List.range' arena.messages.length (arena.newMessages file).length).flatMap
        (enumsWithin (arena.messages ++ linked arena.messages.length arena.enums.length
          (arena.newMessages file) enums) arena.files.length)
      = enumBlocks arena.files.length arena.messages.length (arena.newMessages file) := by
  have hWithin : ∀ (bs : List MessageEntry) (n : Nat),
      (∀ k entry, bs[k]? = some entry → enumsWithin (arena.messages ++ linked arena.messages.length
        arena.enums.length (arena.newMessages file) enums) arena.files.length (n + k)
        = enumBlock arena.files.length (n + k) entry) →
      (List.range' n bs.length).flatMap (enumsWithin (arena.messages ++ linked arena.messages.length
          arena.enums.length (arena.newMessages file) enums) arena.files.length)
        = enumBlocks arena.files.length n bs := by
    intro bs
    induction bs with
    | nil => exact fun _ _ => rfl
    | cons entry rest ih =>
      intro n hEach
      have hHead := hEach 0 entry rfl
      rw [Nat.add_zero] at hHead
      rw [List.length_cons, List.range'_succ, List.flatMap_cons, enumBlocks, hHead, ih (n + 1)]
      intro k other hOther
      rw [Nat.add_assoc, Nat.add_comm 1]
      exact hEach (k + 1) other hOther
  apply hWithin
  intro k entry hEntry
  rw [enumsWithin, getElem?_linked, hEntry]
  rfl

theorem forest_newMessages (enums : List EnumEntry) :
    Forest (arena.messages ++ linked arena.messages.length arena.enums.length
        (arena.newMessages file) enums)
      (placesWhere (·.parent == none) arena.messages.length (arena.newMessages file)) file.messages
      (List.range' arena.messages.length (arena.newMessages file).length) :=
  forest_blocks _ _ _ _ none 0 _ (fun _ _ h => by cases h) (linkedFrom_newMessages arena file enums)

/-- The new enums in a message are those that it declares. -/
theorem filter_newEnums {k : Nat} {entry : MessageEntry} (h : (arena.newMessages file)[k]? = some entry) :
    (arena.newEnums file).filter (·.parent == some (arena.messages.length + k))
      = enumBlock arena.files.length (arena.messages.length + k) entry := by
  rw [newEnums, List.filter_append, List.filter_eq_nil_iff.mpr, List.nil_append, filter_enumBlocks _ h]
  intro e hE
  rw [parent_outermostEnums e hE]
  exact Bool.false_ne_true

/-- No file is refused. -/
theorem addFile_eq (generate : List String) :
    arena.addFile generate file = .ok (arena.withFile generate file) := by
  have hAdded : addMessages file.package arena.files.length none 0 arena.messages file.messages
      = (arena.messages ++ arena.newMessages file,
        List.range' arena.messages.length (arena.newMessages file).length) :=
    addMessages_eq file.package arena.files.length file.messages arena.messages none 0
      (fun _ _ h => by cases h)
  have hNewEnums : outermostEnums arena.files.length file.enums
      ++ (List.range' arena.messages.length (arena.newMessages file).length).flatMap
        (enumsWithin (arena.messages ++ linked arena.messages.length arena.enums.length
          (arena.newMessages file) []) arena.files.length) = arena.newEnums file := by
    rw [enumsWithin_newMessages, newEnums]
  have hMessages : lacking? (·.nested.length) (·.decl.nested.length)
      (arena.messages ++ linked arena.messages.length arena.enums.length (arena.newMessages file) [])
      (List.range' arena.messages.length (arena.newMessages file).length) = none := by
    refine lacking?_eq_none fun place hPlace entry hEntry => ?_
    obtain ⟨found, below, hFound, hForest⟩ := (forest_newMessages arena file []).at place hPlace
    rw [hEntry] at hFound
    cases hFound
    have hDecls := congrArg List.length hForest.map_decl
    rwa [List.length_map, List.length_map] at hDecls
  have hEnums : lacking? (·.enums.length) (·.decl.enums.length)
      (arena.messages ++ linked arena.messages.length arena.enums.length (arena.newMessages file)
        (arena.newEnums file))
      (List.range' arena.messages.length (arena.newMessages file).length) = none := by
    refine lacking?_eq_none fun place hPlace entry hEntry => ?_
    obtain ⟨k, rfl⟩ := Nat.exists_eq_add_of_le (List.mem_range'_1.mp hPlace).1
    rw [getElem?_linked] at hEntry
    obtain ⟨unlinked, hUnlinked, rfl⟩ := Option.map_eq_some_iff.mp hEntry
    rw [length_placesWhere, filter_newEnums arena file hUnlinked, enumBlock, List.length_mapIdx]
  unfold addFile
  simp only [hAdded, linkMessages_newMessages, hMessages, hNewEnums, linkEnums_newEnums, hEnums]
  rfl

end

/-- The arena of a list of files, none of which is to be generated yet. -/
def ofDecls (files : List FileDecl) (generate : List String) : Arena :=
  files.foldl (withFile generate) {}

theorem foldlM_addFile (generate : List String) (files : List FileDecl) (arena : Arena) :
    files.foldlM (addFile generate) arena = .ok (files.foldl (withFile generate) arena) := by
  induction files generalizing arena with
  | nil => rfl
  | cons file rest ih =>
    rw [List.foldlM_cons, addFile_eq, List.foldl_cons]
    exact ih _

theorem mapM_placeOf (arena : Arena) (names : List String) :
    names.mapM arena.placeOf = match names.find? fun name => (arena.names.get? name).isNone with
      | some name => .error (.request (.fileNotFound name))
      | none => .ok (names.filterMap arena.names.get?) := by
  induction names with
  | nil => rfl
  | cons name rest ih =>
    rw [List.mapM_cons, List.find?_cons, placeOf]
    cases hPlace : arena.names.get? name with
    | none => rfl
    | some place =>
      rw [List.filterMap_cons_some hPlace, ih]
      cases hMissing : rest.find? fun name => (arena.names.get? name).isNone <;> rfl

theorem ofFiles_eq (files : List FileDecl) (generate : List String) :
    ofFiles files generate = if generate.isEmpty then .error (.request .noFilesToGenerate)
      else match generate.find? fun name => ((ofDecls files generate).names.get? name).isNone with
        | some name => .error (.request (.fileNotFound name))
        | none => .ok { ofDecls files generate with
            toGenerate := generate.filterMap (ofDecls files generate).names.get? } := by
  unfold ofFiles
  split
  · rfl
  · rw [foldlM_addFile]
    change (generate.mapM (ofDecls files generate).placeOf >>= _) = _
    rw [mapM_placeOf]
    cases generate.find? fun name => ((ofDecls files generate).names.get? name).isNone <;> rfl

/-- Files are refused for the names to generate only. -/
theorem request_of_ofFiles {files : List FileDecl} {generate : List String} {fault : ArenaFault}
    (h : ofFiles files generate = .error fault) : ∃ e, fault = .request e := by
  rw [ofFiles_eq] at h
  split at h
  · cases h
    exact ⟨_, rfl⟩
  · split at h
    · cases h
      exact ⟨_, rfl⟩
    · cases h

end Arena

/-- The graph of a list of files, of which those named in `generate` are to be generated. -/
def Graph.ofFiles (files : List FileDecl) (generate : List String) : Except Error Graph :=
  match h : Arena.ofFiles files generate with
  | .ok arena => .ok arena.graph
  | .error (.request e) => .error e
  | .error (.nesting _) => absurd (Arena.request_of_ofFiles h) (by rintro ⟨e, ⟨⟩⟩)
  | .error (.enumNesting _) => absurd (Arena.request_of_ofFiles h) (by rintro ⟨e, ⟨⟩⟩)

end ProtoBind
