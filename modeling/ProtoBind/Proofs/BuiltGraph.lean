import Mathlib.Data.List.Forall2
import Mathlib.Data.List.Induction
import ProtoBind.Graph.Linking

/-!
# The graph of a list of files

What the arena of a list of files shows as a graph: each file with its own tree of messages, whatever
stands in front of it.
-/

set_option autoImplicit false

namespace ProtoBind

namespace Arena

/-! ### Trees -/

def treeUnder (package : String) (outer : Option (Nat × MessageEntry)) (i : Nat) (m : MessageDecl) :
    List MessageNode :=
  match outer with
  | none => messageTree package [] (SourcePath.message i) none [] m
  | some (_, entry) =>
    messageTree package entry.typeName (entry.path.nested i) (some entry.path) entry.decl.fields m

def treesUnder (package : String) (outer : Option (Nat × MessageEntry)) (i : Nat) :
    List MessageDecl → List MessageNode
  | [] => []
  | m :: rest => treeUnder package outer i m ++ treesUnder package outer (i + 1) rest

theorem treesUnder_some (package : String) (place : Nat) (entry : MessageEntry) (i : Nat)
    (ms : List MessageDecl) :
    treesUnder package (some (place, entry)) i ms
      = nestedTrees package entry.typeName entry.path entry.decl.fields i ms := by
  induction ms generalizing i with
  | nil => rfl
  | cons m rest ih =>
    rw [treesUnder, nestedTrees, ih]
    rfl

theorem treesUnder_none (package : String) (i : Nat) (ms : List MessageDecl) :
    treesUnder package none i ms = (ms.mapIdx fun k m =>
      messageTree package [] (SourcePath.message (i + k)) none [] m).flatten := by
  induction ms generalizing i with
  | nil => rfl
  | cons m rest ih =>
    rw [treesUnder, ih, List.mapIdx_cons, List.flatten_cons]
    simp only [Nat.add_assoc, Nat.add_comm 1]
    rfl

theorem messageTree_eq (package : String) (outer : List String) (path : SourcePath)
    (parent : Option SourcePath) (siblings : List FieldDecl) (m : MessageDecl) :
    messageTree package outer path parent siblings m =
      ⟨m, outer ++ [m.name], path, parent, declaresGroup siblings (fullName package (outer ++ [m.name]))⟩
        :: nestedTrees package (outer ++ [m.name]) path m.fields 0 m.nested := by
  cases m
  rw [messageTree]
  rfl

def PathsFrom (entries : List MessageEntry) (n : Nat) (added : List MessageEntry) : Prop :=
  ∀ k entry, added[k]? = some entry → pathAt entries (n + k) = some entry.path

theorem PathsFrom.left {entries as bs : List MessageEntry} {n : Nat} (h : PathsFrom entries n (as ++ bs)) :
    PathsFrom entries n as := by
  intro k entry hEntry
  refine h k entry ?_
  rw [List.getElem?_append_left (List.getElem?_eq_some_iff.mp hEntry).1, hEntry]

theorem PathsFrom.right {entries as bs : List MessageEntry} {n : Nat} (h : PathsFrom entries n (as ++ bs)) :
    PathsFrom entries (n + as.length) bs := by
  intro k entry hEntry
  rw [Nat.add_assoc]
  refine h _ entry ?_
  rw [List.getElem?_append_right (Nat.le_add_right ..), Nat.add_sub_cancel_left, hEntry]

def PathAround (entries : List MessageEntry) (outer : Option (Nat × MessageEntry)) : Prop :=
  ∀ place entry, outer = some (place, entry) → pathAt entries place = some entry.path

theorem messageNode_under {entries : List MessageEntry} {outer : Option (Nat × MessageEntry)}
    (h : PathAround entries outer) (package : String) (file i : Nat) (m : MessageDecl) :
    messageNode entries (under package file outer i m)
        :: treesUnder package (some (i, under package file outer i m)) 0 m.nested
      = treeUnder package outer i m := by
  rw [treesUnder_some]
  cases outer with
  | none =>
    change _ = messageTree package [] (SourcePath.message i) none [] m
    rw [messageTree_eq]
    rfl
  | some place =>
    change _ = messageTree package place.2.typeName (place.2.path.nested i) (some place.2.path)
      place.2.decl.fields m
    rw [messageTree_eq]
    simp [messageNode, under, MessageEntry.within, h place.1 place.2 rfl]

mutual

theorem map_messageNode_block (entries : List MessageEntry) (package : String) (file : Nat) :
    ∀ (m : MessageDecl) (outer : Option (Nat × MessageEntry)) (i n : Nat), PathAround entries outer →
    PathsFrom entries n (block package file outer i n m) →
    (block package file outer i n m).map (messageNode entries) = treeUnder package outer i m
  | .mk name fields nested enums oneofs extensions extensionRanges reservedRanges mapEntry deprecated
      options, outer, i, n, hOuter, h => by
    rw [block] at h ⊢
    rw [← messageNode_under hOuter package file]
    generalize under package file outer i _ = head at h ⊢
    have hHead : PathAround entries (some (n, head)) := by
      rintro place entry ⟨⟩
      exact h 0 head rfl
    have hNested : PathsFrom entries (n + 1) (blocks package file (some (n, head)) 0 (n + 1) nested) :=
      @PathsFrom.right entries [head] _ n h
    rw [List.map_cons, map_messageNode_blocks entries package file nested _ 0 (n + 1) hHead hNested,
      treesUnder_some, treesUnder_some]
    rfl

theorem map_messageNode_blocks (entries : List MessageEntry) (package : String) (file : Nat) :
    ∀ (ms : List MessageDecl) (outer : Option (Nat × MessageEntry)) (i n : Nat),
    PathAround entries outer → PathsFrom entries n (blocks package file outer i n ms) →
    (blocks package file outer i n ms).map (messageNode entries) = treesUnder package outer i ms
  | [], _, _, _, _, _ => rfl
  | m :: rest, outer, i, n, hOuter, h => by
    rw [blocks] at h ⊢
    rw [List.map_append, treesUnder,
      map_messageNode_block entries package file m outer i n hOuter h.left,
      map_messageNode_blocks entries package file rest outer (i + 1) _ hOuter h.right]

end

/-! ### Files -/

/-- Everything in an arena refers to what is in it. -/
structure Closed (arena : Arena) : Prop where
  messages : ∀ file ∈ arena.files, ∀ place ∈ file.messages, place < arena.messages.length
  enums : ∀ file ∈ arena.files, ∀ place ∈ file.enums, place < arena.enums.length
  parents : ∀ entry ∈ arena.messages, ∀ place, entry.parent = some place → place < arena.messages.length
  enumParents : ∀ e ∈ arena.enums, ∀ place, e.parent = some place → place < arena.messages.length

theorem length_linked (n m : Nat) (messages : List MessageEntry) (enums : List EnumEntry) :
    (linked n m messages enums).length = messages.length := List.length_mapIdx

theorem mem_linked {n m : Nat} {messages : List MessageEntry} {enums : List EnumEntry}
    {entry : MessageEntry} (h : entry ∈ linked n m messages enums) :
    ∃ k, ∃ unlinked : MessageEntry, messages[k]? = some unlinked ∧ entry =
      { unlinked with
        nested := placesWhere (·.parent == some (n + k)) n messages
        enums := placesWhere (·.parent == some (n + k)) m enums } := by
  obtain ⟨k, hK, rfl⟩ := List.mem_mapIdx.mp h
  exact ⟨k, messages[k], List.getElem?_eq_getElem hK, rfl⟩

section

variable {arena : Arena} (file : FileDecl)

theorem parent_lt_of_newMessages : ∀ entry ∈ arena.newMessages file, ∀ place, entry.parent = some place →
    place < arena.messages.length + (arena.newMessages file).length := by
  intro entry hEntry place hPlace
  rcases parentIn_blocks _ _ _ _ _ _ entry hEntry with hNone | ⟨other, hOther, -, hHigh⟩
  · rw [hPlace] at hNone
    cases hNone
  · rw [hPlace] at hOther
    cases hOther
    exact hHigh

theorem parent_lt_of_newEnums : ∀ e ∈ arena.newEnums file, ∀ place, e.parent = some place →
    place < arena.messages.length + (arena.newMessages file).length := by
  intro e hE place hPlace
  rcases List.mem_append.mp hE with hE | hE
  · rw [parent_outermostEnums e hE] at hPlace
    cases hPlace
  · obtain ⟨k, hK, hLess⟩ := parent_enumBlocks e hE
    rw [hK] at hPlace
    cases hPlace
    exact Nat.add_lt_add_left hLess _

theorem Closed.withFile (h : Closed arena) (generate : List String) :
    Closed (arena.withFile generate file) := by
  have hMessages : (arena.withFile generate file).messages.length
      = arena.messages.length + (arena.newMessages file).length := by
    rw [Arena.withFile, List.length_append, length_linked]
  have hEnums : (arena.withFile generate file).enums.length
      = arena.enums.length + (arena.newEnums file).length := List.length_append
  constructor
  case messages =>
    intro f hFile place hPlace
    rcases List.mem_append.mp hFile with hFile | hFile
    · exact hMessages ▸ Nat.lt_add_right _ (h.messages f hFile place hPlace)
    · rw [List.mem_singleton.mp hFile] at hPlace
      exact hMessages ▸ (List.mem_range'_1.mp hPlace).2
  case enums =>
    intro f hFile place hPlace
    rcases List.mem_append.mp hFile with hFile | hFile
    · exact hEnums ▸ Nat.lt_add_right _ (h.enums f hFile place hPlace)
    · rw [List.mem_singleton.mp hFile] at hPlace
      exact hEnums ▸ (List.mem_range'_1.mp hPlace).2
  case parents =>
    intro entry hEntry place hPlace
    rw [hMessages]
    rcases List.mem_append.mp hEntry with hEntry | hEntry
    · exact Nat.lt_add_right _ (h.parents entry hEntry place hPlace)
    · obtain ⟨k, unlinked, hUnlinked, rfl⟩ := mem_linked hEntry
      exact parent_lt_of_newMessages file unlinked (List.mem_of_getElem? hUnlinked) place hPlace
  case enumParents =>
    intro e hE place hPlace
    rw [hMessages]
    rcases List.mem_append.mp hE with hE | hE
    · exact Nat.lt_add_right _ (h.enumParents e hE place hPlace)
    · exact parent_lt_of_newEnums file e hE place hPlace

/-! ### What a graph shows of a file -/

theorem messageNode_append {entries : List MessageEntry} {entry : MessageEntry}
    (h : ∀ place, entry.parent = some place → place < entries.length) (more : List MessageEntry) :
    messageNode (entries ++ more) entry = messageNode entries entry := by
  unfold messageNode
  cases hParent : entry.parent with
  | none => rfl
  | some place => rw [Option.bind_some, Option.bind_some, pathAt, pathAt, List.getElem?_append_left (h place hParent)]

theorem enumNode_append {entries : List MessageEntry} {e : EnumEntry}
    (h : ∀ place, e.parent = some place → place < entries.length) (more : List MessageEntry) :
    enumNode (entries ++ more) e = enumNode entries e := by
  unfold enumNode
  cases hParent : e.parent with
  | none => rfl
  | some place => rw [Option.bind_some, Option.bind_some, pathAt, pathAt, List.getElem?_append_left (h place hParent)]

theorem fileNode_withFile_of_mem (h : Closed arena) (generate : List String) {f : FileEntry}
    (hFile : f ∈ arena.files) : (arena.withFile generate file).fileNode f = arena.fileNode f := by
  have hMessages : f.messages.filterMap (fun place => (arena.withFile generate file).messages[place]?.map
      (messageNode (arena.withFile generate file).messages))
      = f.messages.filterMap fun place => arena.messages[place]?.map (messageNode arena.messages) := by
    refine List.filterMap_congr fun place hPlace => ?_
    have hBound := h.messages f hFile place hPlace
    rw [Arena.withFile, List.getElem?_append_left hBound, List.getElem?_eq_getElem hBound,
      Option.map_some, Option.map_some]
    exact congrArg some (messageNode_append (h.parents _ (List.getElem_mem hBound)) _)
  have hEnums : f.enums.filterMap (fun place => (arena.withFile generate file).enums[place]?.map
      (enumNode (arena.withFile generate file).messages))
      = f.enums.filterMap fun place => arena.enums[place]?.map (enumNode arena.messages) := by
    refine List.filterMap_congr fun place hPlace => ?_
    have hBound := h.enums f hFile place hPlace
    rw [Arena.withFile, List.getElem?_append_left hBound, List.getElem?_eq_getElem hBound,
      Option.map_some, Option.map_some]
    exact congrArg some (enumNode_append (h.enumParents _ (List.getElem_mem hBound)) _)
  rw [fileNode, fileNode, hMessages, hEnums]

theorem map_range'_append {α : Type} (as bs : List α) :
    (List.range' as.length bs.length).map ((as ++ bs)[·]?) = bs.map some := by
  induction bs generalizing as with
  | nil => rfl
  | cons b bs ih =>
    have hRest := ih (as ++ [b])
    rw [List.append_assoc, List.length_append, List.length_singleton] at hRest
    rw [List.length_cons, List.range'_succ, List.map_cons, List.map_cons,
      List.getElem?_append_right (Nat.le_refl _), Nat.sub_self]
    exact congrArg _ hRest

theorem filterMap_range'_append {α β : Type} (as bs : List α) (f : α → β) :
    (List.range' as.length bs.length).filterMap (fun place => (as ++ bs)[place]?.map f) = bs.map f := by
  have hMap := congrArg (List.filterMap (Option.map f)) (map_range'_append as bs)
  rw [List.filterMap_map, List.filterMap_map] at hMap
  exact hMap.trans (congrFun List.filterMap_eq_map bs)

theorem pathsFrom_newMessages (enums : List EnumEntry) :
    PathsFrom (arena.messages ++ linked arena.messages.length arena.enums.length
      (arena.newMessages file) enums) arena.messages.length (arena.newMessages file) := by
  intro k entry hEntry
  rw [pathAt, getElem?_linked, hEntry]
  rfl

theorem map_linked {β : Type} {f : MessageEntry → β}
    (h : ∀ (entry : MessageEntry) nested enums, f { entry with nested, enums } = f entry) (n m : Nat)
    (messages : List MessageEntry) (enums : List EnumEntry) :
    (linked n m messages enums).map f = messages.map f := by
  refine List.ext_getElem? fun k => ?_
  rw [linked, List.getElem?_map, List.getElem?_mapIdx, List.getElem?_map, Option.map_map]
  simp only [Function.comp_def, h]

theorem map_enumNode_enumBlocks (entries : List MessageEntry) (place n : Nat) (bs : List MessageEntry)
    (h : PathsFrom entries n bs) :
    (enumBlocks place n bs).map (enumNode entries)
      = (bs.map (messageNode entries)).flatMap MessageNode.enumNodes := by
  induction bs generalizing n with
  | nil => rfl
  | cons b rest ih =>
    rw [enumBlocks, List.map_append, List.map_cons, List.flatMap_cons,
      ih (n + 1) (@PathsFrom.right entries [b] rest n h)]
    congr 1
    have hPath : pathAt entries n = some b.path := h 0 b rfl
    refine List.ext_getElem? fun k => ?_
    rw [enumBlock, MessageNode.enumNodes, List.getElem?_map, List.getElem?_mapIdx, List.getElem?_mapIdx,
      Option.map_map]
    simp only [Function.comp_def, enumNode, Option.bind_some, hPath]
    rfl

end

end Arena

def FileDecl.node (generate : List String) (file : FileDecl) : FileNode where
  decl := file
  generate := generate.contains file.name
  messages := file.messageNodes
  enums := file.enumNodes

namespace Arena

theorem fileNode_new (arena : Arena) (generate : List String) (file : FileDecl) :
    (arena.withFile generate file).fileNode (arena.newFile generate file) = file.node generate := by
  have hPaths := @pathsFrom_newMessages arena file (arena.newEnums file)
  have hTrees : (arena.newMessages file).map (messageNode (arena.withFile generate file).messages)
      = file.messageNodes := by
    rw [FileDecl.messageNodes, newMessages, Arena.withFile,
      map_messageNode_blocks _ _ _ _ none 0 _ (fun _ _ h => by cases h) hPaths, treesUnder_none]
    simp only [Nat.zero_add]
  have hMessages := filterMap_range'_append arena.messages
    (linked arena.messages.length arena.enums.length (arena.newMessages file) (arena.newEnums file))
    (messageNode (arena.withFile generate file).messages)
  rw [map_linked (fun _ _ _ => rfl), hTrees, length_linked] at hMessages
  have hPaths' : PathsFrom (arena.withFile generate file).messages arena.messages.length
      (arena.newMessages file) := hPaths
  have hEnumTrees : (arena.newEnums file).map (enumNode (arena.withFile generate file).messages)
      = file.enumNodes := by
    rw [newEnums, List.map_append, map_enumNode_enumBlocks _ _ _ _ hPaths', hTrees, FileDecl.enumNodes]
    congr 1
    refine List.ext_getElem? fun k => ?_
    rw [outermostEnums, List.getElem?_map, List.getElem?_mapIdx, List.getElem?_mapIdx, Option.map_map]
    rfl
  have hEnums := filterMap_range'_append arena.enums (arena.newEnums file)
    (enumNode (arena.withFile generate file).messages)
  rw [hEnumTrees] at hEnums
  rw [fileNode, FileDecl.node]
  congr 1

theorem graph_withFile {arena : Arena} (h : Closed arena) (generate : List String) (file : FileDecl) :
    (arena.withFile generate file).graph.files = arena.graph.files ++ [file.node generate] := by
  change (arena.files ++ [_]).map (arena.withFile generate file).fileNode = _
  rw [List.map_append, List.map_singleton, fileNode_new,
    List.map_congr_left fun f hFile => fileNode_withFile_of_mem file h generate hFile]
  rfl

theorem ofDecls_concat (files : List FileDecl) (file : FileDecl) (generate : List String) :
    ofDecls (files ++ [file]) generate = (ofDecls files generate).withFile generate file := by
  rw [ofDecls, List.foldl_append]
  rfl

theorem closed_ofDecls (files : List FileDecl) (generate : List String) :
    Closed (ofDecls files generate) := by
  induction files using List.reverseRecOn with
  | nil => constructor <;> exact fun _ h => absurd h List.not_mem_nil
  | append_singleton files file ih => exact ofDecls_concat files file generate ▸ ih.withFile file generate

theorem graph_ofDecls (files : List FileDecl) (generate : List String) :
    (ofDecls files generate).graph.files = files.map (FileDecl.node generate) := by
  induction files using List.reverseRecOn with
  | nil => rfl
  | append_singleton files file ih =>
    rw [ofDecls_concat, graph_withFile (closed_ofDecls files generate), ih, List.map_append,
      List.map_singleton]

end Arena

namespace Graph

theorem fileByName?_concat (files : List FileNode) (file : FileNode) (places : List Nat) (name : String) :
    fileByName? ⟨files ++ [file], places⟩ name
      = if name = file.decl.name then some files.length else fileByName? ⟨files, places⟩ name := by
  have hFront : (List.range files.length).filter (fun i => ((files ++ [file])[i]?).any (·.decl.name == name))
      = (List.range files.length).filter fun i => (files[i]?).any (·.decl.name == name) := by
    refine List.filter_congr fun i hI => ?_
    rw [List.getElem?_append_left (List.mem_range.mp hI)]
  simp only [fileByName?, file?, List.length_append, List.length_singleton, List.range_succ,
    List.filter_append, hFront]
  by_cases hName : name = file.decl.name
  · simp [hName]
  · simp [hName, Ne.symm hName]

theorem get?_names_ofDecls (files : List FileDecl) (generate : List String) (name : String) :
    (Arena.ofDecls files generate).names.get? name
      = fileByName? ⟨files.map (FileDecl.node generate), []⟩ name := by
  induction files using List.reverseRecOn with
  | nil => rfl
  | append_singleton files file ih =>
    have hLength := congrArg List.length (Arena.graph_ofDecls files generate)
    rw [Arena.graph, List.length_map, List.length_map] at hLength
    rw [Arena.ofDecls_concat, Arena.withFile, Table.get?_insert, List.map_append, List.map_singleton,
      fileByName?_concat, ih, hLength, List.length_map]
    rfl

theorem ofFiles_of_ok {files : List FileDecl} {generate : List String} {arena : Arena}
    (h : Arena.ofFiles files generate = .ok arena) : ofFiles files generate = .ok arena.graph := by
  unfold ofFiles
  split <;> rename_i hRun <;> rw [h] at hRun <;> cases hRun
  rfl

theorem ofFiles_of_request {files : List FileDecl} {generate : List String} {e : Error}
    (h : Arena.ofFiles files generate = .error (.request e)) : ofFiles files generate = .error e := by
  unfold ofFiles
  split <;> rename_i hRun <;> rw [h] at hRun <;> cases hRun
  rfl

/-- The graph of a list of files shows each of them by itself. -/
theorem ofFiles_eq (files : List FileDecl) (generate : List String) :
    ofFiles files generate =
      if generate.isEmpty then .error .noFilesToGenerate
      else
        let graph : Graph := ⟨files.map (FileDecl.node generate), []⟩
        match generate.find? fun name => (graph.fileByName? name).isNone with
        | some name => .error (.fileNotFound name)
        | none => .ok { graph with toGenerate := generate.filterMap graph.fileByName? } := by
  have hArena := Arena.ofFiles_eq files generate
  rw [funext (get?_names_ofDecls files generate)] at hArena
  split at hArena
  · rw [ofFiles_of_request hArena, if_pos ‹_›]
  · rw [if_neg ‹_›]
    dsimp only
    cases hMissing : generate.find? fun name =>
        (fileByName? ⟨files.map (FileDecl.node generate), []⟩ name).isNone with
    | some name =>
      rw [hMissing] at hArena
      rw [ofFiles_of_request hArena]
    | none =>
      rw [hMissing] at hArena
      rw [ofFiles_of_ok hArena]
      exact congrArg Except.ok (congrArg₂ Graph.mk (Arena.graph_ofDecls files generate) rfl)

end Graph

end ProtoBind
