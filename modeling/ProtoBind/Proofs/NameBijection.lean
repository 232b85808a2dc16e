import Mathlib.Data.List.Perm.Basic
import ProtoBind.Proofs.MovedStages
import ProtoBind.Proofs.Pieces

/-!
# Names and what they name

The full names that the declarations of a request give their messages and enums, and that an index exists
just where no two of these names are the same. It then sends every name back to what has it.
-/

set_option autoImplicit false

namespace ProtoBind

/-! ### Full names of declarations -/

/-- What stands before the dot of the names that are declared in a package. -/
def packageScope (package : String) : String := if package = "" then "" else "." ++ package

def nameWithin (scope name : String) : String := scope ++ "." ++ name

mutual

/-- The full names of a message, of the enums in it and of all that is nested in it. -/
def MessageDecl.fullNames (scope : String) : MessageDecl → List String
  | .mk name _ nested enums _ _ _ _ _ _ _ =>
    nameWithin scope name
      :: (enums.map fun e => nameWithin (nameWithin scope name) e.name)
      ++ MessageDecl.allFullNames (nameWithin scope name) nested

/-- The full names of messages that stand side by side, and of all that stands in them. -/
def MessageDecl.allFullNames (scope : String) : List MessageDecl → List String
  | [] => []
  | message :: rest => message.fullNames scope ++ MessageDecl.allFullNames scope rest

end

def FileDecl.fullNames (file : FileDecl) : List String :=
  (file.enums.map fun e => nameWithin (packageScope file.package) e.name)
    ++ MessageDecl.allFullNames (packageScope file.package) file.messages

/-- What stands before the dot of a name that is declared behind others. -/
def scopeOf (package : String) (outer : List String) : String :=
  if outer = [] then packageScope package else fullName package outer

/-- A full name is the name in the scope of all that stands before it. -/
theorem fullName_concat (package name : String) (outer : List String) :
    fullName package (outer ++ [name]) = nameWithin (scopeOf package outer) name := by
  unfold scopeOf nameWithin
  split
  · rename_i hOuter
    subst hOuter
    by_cases hPackage : package = ""
    · simp [fullName, packageScope, hPackage]
    · simp [fullName, packageScope, hPackage, String.append_assoc]
  · rename_i hOuter
    rw [fullName, fullName, Text.intercalate_concat _ _ hOuter]
    simp only [String.append_assoc]

theorem scopeOf_concat (package name : String) (outer : List String) :
    scopeOf package (outer ++ [name]) = fullName package (outer ++ [name]) := by
  rw [scopeOf, if_neg (by simp)]

/-- The full names of messages of a file and of the enums directly in them. -/
def nodeNames (package : String) (messages : List MessageNode) : List String :=
  messages.map (fun message => fullName package message.typeName)
    ++ (messages.flatMap MessageNode.enumNodes).map fun e => fullName package e.typeName

theorem nodeNames_append (package : String) (front back : List MessageNode) :
    (nodeNames package (front ++ back)).Perm (nodeNames package front ++ nodeNames package back) := by
  unfold nodeNames
  rw [List.map_append, List.flatMap_append, List.map_append, List.append_assoc, List.append_assoc]
  refine List.Perm.append_left _ ?_
  rw [← List.append_assoc, ← List.append_assoc]
  exact List.Perm.append_right _ List.perm_append_comm

theorem fullName_enumNodes (package : String) (message : MessageNode) :
    message.enumNodes.map (fun e => fullName package e.typeName)
      = message.decl.enums.map fun e => nameWithin (scopeOf package message.typeName) e.name := by
  refine List.ext_getElem? fun i => ?_
  rw [MessageNode.enumNodes, List.getElem?_map, List.getElem?_mapIdx, List.getElem?_map, Option.map_map]
  simp only [Function.comp_def, fullName_concat]

mutual

/-- The nodes of a message have the names that it declares. -/
theorem nodeNames_messageTree (package : String) : ∀ (m : MessageDecl) (outer : List String)
    (path : SourcePath) (parent : Option SourcePath) (siblings : List FieldDecl),
    (nodeNames package (messageTree package outer path parent siblings m)).Perm
      (m.fullNames (scopeOf package outer))
  | .mk name fields nested enums oneofs extensions extensionRanges reservedRanges mapEntry deprecated
      options, outer, path, parent, siblings => by
    have hNested := nodeNames_nestedTrees package nested (outer ++ [name]) path fields 0
    rw [scopeOf_concat] at hNested
    rw [messageTree, MessageDecl.fullNames, ← fullName_concat]
    refine (nodeNames_append package [_] _).trans ?_
    rw [nodeNames, List.map_singleton, List.flatMap_singleton, fullName_enumNodes, scopeOf_concat]
    exact List.Perm.append_left _ hNested

theorem nodeNames_nestedTrees (package : String) : ∀ (ms : List MessageDecl) (outer : List String)
    (path : SourcePath) (siblings : List FieldDecl) (i : Nat),
    (nodeNames package (nestedTrees package outer path siblings i ms)).Perm
      (MessageDecl.allFullNames (scopeOf package outer) ms)
  | [], _, _, _, _ => .rfl
  | m :: rest, outer, path, siblings, i => by
    rw [nestedTrees, MessageDecl.allFullNames]
    exact (nodeNames_append package _ _).trans ((nodeNames_messageTree package m outer _ _ _).append
      (nodeNames_nestedTrees package rest outer path siblings (i + 1)))

end

theorem nodeNames_messageNodes (file : FileDecl) :
    (nodeNames file.package file.messageNodes).Perm
      (MessageDecl.allFullNames (packageScope file.package) file.messages) := by
  unfold FileDecl.messageNodes
  generalize hStart : SourcePath.message = start
  clear hStart
  generalize file.messages = messages
  induction messages generalizing start with
  | nil => rfl
  | cons m rest ih =>
    rw [List.mapIdx_cons, List.flatten_cons, MessageDecl.allFullNames]
    exact (nodeNames_append file.package _ _).trans
      ((nodeNames_messageTree file.package m [] _ _ _).append (ih fun i => start (i + 1)))

/-- The nodes of a file have the names that it declares. -/
theorem names_node (file : FileDecl) :
    (file.enumNodes.map (fun e => fullName file.package e.typeName)
        ++ file.messageNodes.map fun m => fullName file.package m.typeName).Perm file.fullNames := by
  have hOuter : (file.enums.mapIdx fun i (e : EnumDecl) =>
        ({ decl := e, typeName := [e.name], path := SourcePath.enum i, parent := none } : EnumNode)).map
          (fun e => fullName file.package e.typeName)
      = file.enums.map fun e => nameWithin (packageScope file.package) e.name := by
    refine List.ext_getElem? fun i => ?_
    rw [List.getElem?_map, List.getElem?_mapIdx, List.getElem?_map, Option.map_map]
    exact congrArg (Option.map · _) (funext fun e => fullName_concat file.package e.name [])
  rw [FileDecl.enumNodes, List.map_append, hOuter, FileDecl.fullNames, List.append_assoc]
  exact List.Perm.append_left _ (List.perm_append_comm.trans (nodeNames_messageNodes file))

namespace Graph

/-- The symbols of a file have the names of its nodes. -/
theorem map_fullName_symbols {g : Graph} {place : Nat} {file : FileNode} (h : g.file? place = some file) :
    (file.symbols place).map g.fullName
      = file.enums.map (fun e => ProtoBind.fullName file.decl.package e.typeName)
        ++ file.messages.map fun m => ProtoBind.fullName file.decl.package m.typeName := by
  have hPackage : g.packageOf place = file.decl.package := by
    rw [packageOf, h, Option.map_some, Option.getD_some]
  rw [FileNode.symbols, List.map_append, List.map_map, List.map_map]
  congr 1
  · refine List.ext_getElem (by simp) fun i hLeft hRight => ?_
    have hEnum : i < file.enums.length := by simpa using hRight
    simp [Graph.fullName, Symbol.file, hPackage, typeName, enum?, h, hEnum]
  · refine List.ext_getElem (by simp) fun i hLeft hRight => ?_
    have hMessage : i < file.messages.length := by simpa using hRight
    simp [Graph.fullName, Symbol.file, hPackage, typeName, message?, h, hMessage]

/-- The symbols of the graph of a list of files have the names that the files declare. -/
theorem map_fullName_symbols_ofFiles {files : List FileDecl} {generate : List String} {g : Graph}
    (h : ofFiles files generate = .ok g) :
    (g.symbols.map g.fullName).Perm (files.flatMap FileDecl.fullNames) := by
  obtain ⟨-, -, rfl⟩ := ofFiles_ok_iff.mp h
  have hEach : ((selecting files generate).files.mapIdx fun i file => file.symbols i).map
        (List.map (selecting files generate).fullName)
      = files.map fun file => file.enumNodes.map (fun e => ProtoBind.fullName file.package e.typeName)
        ++ file.messageNodes.map fun m => ProtoBind.fullName file.package m.typeName := by
    refine List.ext_getElem? fun i => ?_
    have hFile : (selecting files generate).files[i]? = files[i]?.map (FileDecl.node generate) :=
      List.getElem?_map
    rw [List.getElem?_map, List.getElem?_mapIdx, List.getElem?_map, hFile]
    cases hDecl : files[i]? with
    | none => rfl
    | some file =>
      rw [hDecl] at hFile
      exact congrArg some (map_fullName_symbols hFile)
  rw [symbols, List.map_flatten, hEach, ← List.flatMap_def]
  exact List.Perm.flatMap_left files fun file _ => names_node file

end Graph

namespace NameIndex

/-! ### Names and symbols -/

theorem dropDot_dot (name : String) : dropDot ("." ++ name) = name := by
  have hList : ("." ++ name).toList = '.' :: name.toList := by rw [String.toList_append]; rfl
  rw [dropDot, hList]
  exact String.ofList_toList

/-- The name that an index knows a symbol by is its full name but for the dot. -/
theorem dot_indexName (g : Graph) (s : Symbol) : "." ++ g.indexName s = g.fullName s := by
  rw [Graph.indexName, Graph.fullName, ProtoBind.fullName, String.append_assoc, dropDot_dot]

theorem indexName_eq_iff (g : Graph) (s : Symbol) (name : String) :
    g.indexName s = name ↔ g.fullName s = "." ++ name := by
  rw [← dot_indexName]
  constructor
  · rintro rfl
    rfl
  · intro h
    rw [← String.toList_inj, String.toList_append, String.toList_append, List.append_right_inj] at h
    exact String.toList_inj.mp h

/-- A name is written with its dot or without. -/
theorem dropDot_cases (name : String) : name = "." ++ dropDot name ∨ dropDot name = name := by
  unfold dropDot
  split
  · rename_i rest hList
    left
    rw [← String.toList_inj, hList, String.toList_append]
    exact congrArg ('.' :: ·) String.toList_ofList.symm
  · exact .inr rfl

theorem length_insertEntry {β : Type} {key : String} (value : β) {entries : List (String × β)}
    (h : entryAt? key entries = none) : (insertEntry key value entries).length = entries.length + 1 := by
  induction entries with
  | nil => rfl
  | cons head rest ih =>
    obtain ⟨k, v⟩ := head
    rw [entryAt?] at h
    split at h
    · cases h
    · rename_i hOther
      rw [insertEntry]
      split
      · rfl
      · rw [List.length_cons, ih h, List.length_cons]

/-- One more name makes an index longer by one. -/
theorem size_foldlM_add {entries : List (String × Symbol)} {index last : NameIndex}
    (h : entries.foldlM add index = .ok last) : last.size = index.size + entries.length := by
  induction entries generalizing index with
  | nil =>
    cases h
    rfl
  | cons e rest ih =>
    rw [List.foldlM_cons, add] at h
    cases hFree : index.table.get? e.1 with
    | some s =>
      rw [hFree] at h
      cases h
    | none =>
      rw [hFree] at h
      have hLength : (NameIndex.mk (index.table.insert e.1 e.2)).size = index.size + 1 :=
        length_insertEntry e.2 hFree
      rw [ih h, hLength, List.length_cons]
      omega

/-- An index cannot be made longer by a name that it has, or that came before. -/
theorem foldlM_add_error {entries : List (String × Symbol)} {index : NameIndex} {e : Error}
    (h : entries.foldlM add index = .error e) :
    ∃ front entry back, entries = front ++ entry :: back ∧ e = .duplicateName entry.1 ∧
      (index.table.get? entry.1 ≠ none ∨ ∃ other ∈ front, other.1 = entry.1) := by
  induction entries generalizing index with
  | nil => cases h
  | cons first rest ih =>
    rw [List.foldlM_cons, add] at h
    cases hFree : index.table.get? first.1 with
    | some s =>
      rw [hFree] at h
      cases h
      refine ⟨[], first, rest, rfl, rfl, .inl ?_⟩
      rw [hFree]
      exact Option.some_ne_none s
    | none =>
      rw [hFree] at h
      obtain ⟨front, entry, back, rfl, hError, hKnown⟩ := ih h
      refine ⟨first :: front, entry, back, rfl, hError, ?_⟩
      rcases hKnown with hKnown | ⟨other, hOther, hSame⟩
      · rw [Table.get?_insert] at hKnown
        split at hKnown
        · rename_i hSame
          exact .inr ⟨first, List.mem_cons_self, hSame.symm⟩
        · exact .inl hKnown
      · exact .inr ⟨other, List.mem_cons_of_mem _ hOther, hSame⟩

variable {g : Graph}

/-- Where no index can be built, two symbols have the name that is reported. -/
theorem build_error {e : Error} (h : build g = .error e) :
    ∃ name, e = .duplicateName name ∧ ∃ s ∈ g.symbols, ∃ t ∈ g.symbols, s ≠ t ∧
      g.fullName s = "." ++ name ∧ g.fullName t = "." ++ name := by
  obtain ⟨front, entry, back, hEntries, rfl, hKnown⟩ := foldlM_add_error h
  rcases hKnown with hKnown | ⟨other, hOther, hSame⟩
  · exact absurd (Table.get?_empty _) hKnown
  have hEach : ∀ item ∈ front ++ entry :: back, item.2 ∈ g.symbols ∧ g.fullName item.2 = "." ++ item.1 := by
    intro item hItem
    rw [← hEntries] at hItem
    obtain ⟨s, hS, rfl⟩ := List.mem_map.mp hItem
    exact ⟨hS, (dot_indexName g s).symm⟩
  have hFirst := hEach other (List.mem_append_left _ hOther)
  have hSecond := hEach entry (List.mem_append_right _ List.mem_cons_self)
  refine ⟨entry.1, rfl, other.2, hFirst.1, entry.2, hSecond.1, ?_, hSame ▸ hFirst.2, hSecond.2⟩
  have hNodup : ((front ++ entry :: back).map (·.2)).Nodup := by
    rw [← hEntries, List.map_map]
    exact (List.map_id g.symbols).symm ▸ g.nodup_symbols
  rw [List.map_append, List.nodup_append] at hNodup
  exact hNodup.2.2 _ (List.mem_map_of_mem hOther) _ (List.mem_map_of_mem List.mem_cons_self)

theorem namesDiffer_iff : g.NamesDiffer ↔ (g.symbols.map g.fullName).Nodup := by
  constructor
  · intro h
    refine List.Nodup.map_on ?_ g.nodup_symbols
    intro s hS t hT hSame
    exact h s hS t hT (by rw [Graph.indexName, hSame, Graph.indexName])
  · intro h s hS t hT hSame
    refine List.inj_on_of_nodup_map h hS hT ?_
    rw [← dot_indexName, hSame, dot_indexName]

/-- What an index finds under a name, and that it finds nothing else. -/
theorem get_ok_iff {index : NameIndex} (h : build g = .ok index) {name : String} {s : Symbol} :
    index.get name = .ok s ↔ s ∈ g.symbols ∧ g.fullName s = "." ++ dropDot name := by
  rw [← indexName_eq_iff, ← (build_spec h).2, get]
  cases index.table.get? (dropDot name) <;> simp

theorem get_error {index : NameIndex} {name : String} {e : Error} (h : index.get name = .error e) :
    e = .objectNotFound name := by
  rw [get] at h
  split at h
  · cases h
  · exact (Except.error.inj h).symm

/-- The index of a list of files can be built just where no two messages or enums have one full name. It
has as many names as there are messages and enums, leads from the full name of each of them to it, finds
nothing under any other name, and where it cannot be built a name is reported that two of them have. -/
theorem build_bijection {files : List FileDecl} {generate : List String}
    (h : Graph.ofFiles files generate = .ok g) :
    (g.symbols.map g.fullName).Perm (files.flatMap FileDecl.fullNames) ∧
    ((∃ index, build g = .ok index) ↔ (files.flatMap FileDecl.fullNames).Nodup) ∧
    (∀ index, build g = .ok index →
      index.size = (files.flatMap FileDecl.fullNames).length ∧
      (∀ s ∈ g.symbols, index.get (g.fullName s) = .ok s) ∧
      ∀ name,
        (∃ s ∈ g.symbols, index.get name = .ok s ∧ (g.fullName s = name ∨ g.fullName s = "." ++ name)) ∨
        index.get name = .error (.objectNotFound name) ∧
          "." ++ dropDot name ∉ files.flatMap FileDecl.fullNames) ∧
    ∀ e, build g = .error e → ∃ name, e = .duplicateName name ∧
      ∃ s ∈ g.symbols, ∃ t ∈ g.symbols, s ≠ t ∧ g.fullName s = "." ++ name ∧ g.fullName t = "." ++ name := by
  have hNames := Graph.map_fullName_symbols_ofFiles h
  refine ⟨hNames, ?_, ?_, fun e => build_error⟩
  · rw [← hNames.nodup_iff, ← namesDiffer_iff]
    exact ⟨fun ⟨index, hIndex⟩ => (build_spec hIndex).1, build_ok⟩
  · intro index hIndex
    refine ⟨?_, ?_, ?_⟩
    · have hSize := size_foldlM_add hIndex
      rw [List.length_map] at hSize
      rw [hSize, ← hNames.length_eq, List.length_map]
      exact Nat.zero_add _
    · intro s hS
      refine (get_ok_iff hIndex).mpr ⟨hS, ?_⟩
      rw [← Graph.indexName, dot_indexName]
    · intro name
      cases hGet : index.get name with
      | ok s =>
        obtain ⟨hS, hName⟩ := (get_ok_iff hIndex).mp hGet
        refine .inl ⟨s, hS, rfl, ?_⟩
        rcases dropDot_cases name with hDot | hPlain
        · exact .inl (hName.trans hDot.symm)
        · exact .inr (by rw [hName, hPlain])
      | error e =>
        refine .inr ⟨congrArg _ (get_error hGet), ?_⟩
        intro hMem
        obtain ⟨s, hS, hName⟩ := List.mem_map.mp (hNames.mem_iff.mpr hMem)
        rw [(get_ok_iff hIndex).mpr ⟨hS, hName⟩] at hGet
        cases hGet

/-- Two files of one package, of which the first has an enum three levels deep. -/
def deepFiles : List FileDecl :=
  [{ name := "a.proto", package := "p",
     messages := [.mk "A" []
       [.mk "B" [] [] [{ name := "E" }] [] [] [] [] false false []] [] [] [] [] [] false false []] },
   { name := "b.proto", package := "p.A", enums := [{ name := "C" }] }]

theorem build_bijection_deepFiles : ∃ (k : Graph) (index : NameIndex),
    Graph.ofFiles deepFiles ["b.proto"] = .ok k ∧ build k = .ok index ∧ index.size = 4 ∧
      ∃ s ∈ k.symbols, k.fullName s = ".p.A.B.E" ∧ index.get ".p.A.B.E" = .ok s := by
  obtain ⟨k, hGraph⟩ : ∃ k, Graph.ofFiles deepFiles ["b.proto"] = .ok k := ⟨_, rfl⟩
  have hNames : deepFiles.flatMap FileDecl.fullNames = [".p.A", ".p.A.B", ".p.A.B.E", ".p.A.C"] := by decide
  obtain ⟨hPerm, hBuild, hFound, -⟩ := build_bijection hGraph
  obtain ⟨index, hIndex⟩ := hBuild.mpr (by rw [hNames]; decide)
  obtain ⟨hSize, hGet, -⟩ := hFound index hIndex
  rw [hNames] at hPerm hSize
  obtain ⟨s, hS, hName⟩ := List.mem_map.mp (hPerm.mem_iff.mpr (show ".p.A.B.E" ∈ _ by decide))
  exact ⟨k, index, hGraph, hIndex, hSize, s, hS, hName, hName ▸ hGet s hS⟩

end NameIndex

end ProtoBind
