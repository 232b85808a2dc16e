import ProtoBind.Proofs.PreparedGraph

/-!
# Paths of types

The names that lead to the types of a file that has gone through all stages are those of the messages around
them and their own.
-/

set_option autoImplicit false

namespace ProtoBind

/-! ### Types of prepared files -/

theorem Graph.exists_decl_of_prepare {files : List FileDecl} {names : List String} {params : Parameters}
    {g : Graph} {index : NameIndex} (h : Graph.prepare files names params = .ok (g, index)) {place : Nat}
    {file : FileNode} (hFile : g.file? place = some file) :
    files[place]? = some file.decl ∧ file.messages = file.decl.messageNodes
      ∧ file.enums = nameEnums [] file.decl.enumNodes := by
  obtain ⟨-, -, -, -, hExport⟩ := prepare_ok_iff.mp h
  have hConstants : (resolved files names params).withConstants.file? place
      = ((resolved files names params).file? place).map
        fun file => { file with enums := nameEnums [] file.enums } := List.getElem?_map
  rw [file?_of_exportPublicImports hExport, hConstants, file?, files_resolved, List.getElem?_map,
    Option.map_map, Option.map_map] at hFile
  obtain ⟨decl, hDecl, rfl⟩ := Option.map_eq_some_iff.mp hFile
  exact ⟨hDecl, rfl, rfl⟩

/-- What the file of a scope holds behind all stages, also where there is none. -/
theorem Emit.Scope.file_of_prepare {scope : Emit.Scope} {files : List FileDecl} {names : List String}
    {params : Parameters} (h : Graph.prepare files names params = .ok (scope.graph, scope.index)) :
    scope.file.messages = scope.file.decl.messageNodes
      ∧ scope.file.enums = nameEnums [] scope.file.decl.enumNodes := by
  cases hFile : scope.graph.file? scope.place with
  | none =>
    have hDefault : scope.file = default := congrArg (Option.getD · default) hFile
    rw [hDefault]
    exact ⟨rfl, rfl⟩
  | some file =>
    rw [Emit.Scope.file_of_file? hFile]
    exact (Graph.exists_decl_of_prepare h hFile).2

theorem typeNames_of_nameEnums (used : List String) (enums : List EnumNode) :
    (nameEnums used enums).map (·.typeName) = enums.map (·.typeName) := by
  induction enums generalizing used with
  | nil => rfl
  | cons e rest ih => rw [nameEnums, List.map_cons, List.map_cons, ih]

/-! ### Names on paths -/

/-- The path of a node leads somewhere, through names from outside and names of other nodes. -/
def LeadsThrough (outer : List String) (nodes : List MessageNode) (path : List String) : Prop :=
  path ≠ [] ∧ ∀ name ∈ path, name ∈ outer ∨ ∃ node ∈ nodes, node.decl.name = name

theorem LeadsThrough.mono {outer : List String} {nodes more : List MessageNode} {path : List String}
    (h : LeadsThrough outer nodes path) (hMore : nodes ⊆ more) : LeadsThrough outer more path := by
  refine ⟨h.1, fun name hName => (h.2 name hName).imp_right ?_⟩
  rintro ⟨node, hNode, hSame⟩
  exact ⟨node, hMore hNode, hSame⟩

mutual

theorem leads_messageTree (package : String) : ∀ (message : MessageDecl) (outer : List String) (path : SourcePath)
    (parent : Option SourcePath) (siblings : List FieldDecl),
    ∀ node ∈ messageTree package outer path parent siblings message,
      LeadsThrough outer (messageTree package outer path parent siblings message) node.typeName
  | .mk name fields nested enums oneofs extensions extensionRanges reservedRanges mapEntry deprecated options,
      outer, path, parent, siblings => by
    rw [messageTree]
    intro node hNode
    rcases List.mem_cons.mp hNode with rfl | hNested
    · refine ⟨by simp, fun other hOther => ?_⟩
      rcases List.mem_append.mp hOther with hOuter | hOwn
      · exact .inl hOuter
      · exact .inr ⟨_, List.mem_cons_self, (List.mem_singleton.mp hOwn).symm⟩
    · obtain ⟨hNe, hNames⟩ := leads_nestedTrees package nested (outer ++ [name]) path fields 0 node hNested
      refine ⟨hNe, fun other hOther => ?_⟩
      rcases hNames other hOther with hOuter | ⟨found, hFound, hSame⟩
      · rcases List.mem_append.mp hOuter with hOuter | hOwn
        · exact .inl hOuter
        · exact .inr ⟨_, List.mem_cons_self, (List.mem_singleton.mp hOwn).symm⟩
      · exact .inr ⟨found, List.mem_cons_of_mem _ hFound, hSame⟩

theorem leads_nestedTrees (package : String) : ∀ (messages : List MessageDecl) (outer : List String)
    (path : SourcePath) (siblings : List FieldDecl) (start : Nat),
    ∀ node ∈ nestedTrees package outer path siblings start messages,
      LeadsThrough outer (nestedTrees package outer path siblings start messages) node.typeName
  | [], outer, path, siblings, start => by
    rw [nestedTrees]
    exact fun node hNode => absurd hNode List.not_mem_nil
  | message :: rest, outer, path, siblings, start => by
    rw [nestedTrees]
    intro node hNode
    rcases List.mem_append.mp hNode with hHead | hRest
    · exact (leads_messageTree package message outer _ _ siblings node hHead).mono (List.subset_append_left _ _)
    · exact (leads_nestedTrees package rest outer path siblings (start + 1) node hRest).mono
        (List.subset_append_right _ _)

end

namespace FileDecl

variable {file : FileDecl}

theorem leads_messageNodes : ∀ node ∈ file.messageNodes, LeadsThrough [] file.messageNodes node.typeName := by
  intro node hNode
  obtain ⟨tree, hTree, hMem⟩ := List.mem_flatten.mp hNode
  obtain ⟨i, hBound, rfl⟩ := List.mem_mapIdx.mp hTree
  exact (leads_messageTree file.package _ [] _ none [] node hMem).mono fun other hOther =>
    List.mem_flatten.mpr ⟨_, hTree, hOther⟩

/-- All messages and enums of a file have names as schemas allow them. -/
structure TypesNamed (file : FileDecl) : Prop where
  messages : ∀ node ∈ file.messageNodes, Text.isSchemaName node.decl.name = true
  enums : ∀ e ∈ file.enumNodes, Text.isSchemaName e.decl.name = true

theorem TypesNamed.messagePath (h : file.TypesNamed) {node : MessageNode} (hNode : node ∈ file.messageNodes) :
    node.typeName ≠ [] ∧ ∀ name ∈ node.typeName, Text.isSchemaName name = true := by
  obtain ⟨hNe, hNames⟩ := leads_messageNodes node hNode
  refine ⟨hNe, fun name hName => ?_⟩
  rcases hNames name hName with hOuter | ⟨other, hOther, rfl⟩
  · cases hOuter
  · exact h.messages other hOther

theorem TypesNamed.enumPath (h : file.TypesNamed) {e : EnumNode} (hE : e ∈ file.enumNodes) :
    e.typeName ≠ [] ∧ ∀ name ∈ e.typeName, Text.isSchemaName name = true := by
  have hOwn := h.enums e hE
  rcases List.mem_append.mp hE with hOuter | hNested
  · obtain ⟨i, hBound, rfl⟩ := List.mem_mapIdx.mp hOuter
    exact ⟨by simp, by simpa using hOwn⟩
  · obtain ⟨node, hNode, hMem⟩ := List.mem_flatMap.mp hNested
    obtain ⟨i, hBound, rfl⟩ := List.mem_mapIdx.mp hMem
    refine ⟨by simp, fun name hName => ?_⟩
    rcases List.mem_append.mp hName with hAround | hLast
    · exact (h.messagePath hNode).2 name hAround
    · rw [List.mem_singleton.mp hLast]
      exact hOwn

end FileDecl

end ProtoBind
