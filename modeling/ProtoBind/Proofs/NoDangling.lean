import ProtoBind.Proofs.ResolvedTypes

/-!
# Paths lead to declarations

Every type that an emitted file names, and every name that it passes on, is declared in the model of the
schema file that it belongs to, and the path begins with the way from the one file to the other.
-/

set_option autoImplicit false

namespace ProtoBind

open Naming Emit

namespace Emit

/-- A path in an emitted file leads to a name of a symbol: the model of the file of the symbol declares
the name, and before the name the path says how that file is reached. -/
structure Reaches (params : Parameters) (scope : Scope) (names : LocalNames) (lines : List Line)
    (s : Symbol) (name path : String) : Prop where
  exported : name ∈ scope.graph.exportedNames s
  declared : ∀ model, ModelFile.ofScope ⟨scope.graph, scope.index, s.file, .model⟩ = .ok model →
    Declares (model.lines params) name
  here : s.file = scope.place ∧ scope.pass = .model → path = name
  sibling : ¬(s.file = scope.place ∧ scope.pass = .model) →
    scope.graph.importPathOf s.file = scope.file.importPath → path = "super::" ++ name
  package : scope.graph.importPathOf s.file ≠ scope.file.importPath →
    ∃ package, LocalNames.Introduces params names lines (scope.graph.importPathOf s.file) package ∧
      path = package ++ "::" ++ name

theorem importPathOf_place (scope : Scope) :
    scope.graph.importPathOf scope.place = scope.file.importPath := by
  rw [Graph.importPathOf, Scope.file]
  cases scope.graph.file? scope.place <;> rfl

theorem file_mem_of_imported {scope : Scope} {s : Symbol} (h : s ∈ scope.file.imported) :
    scope.file ∈ scope.graph.files := by
  cases hFound : scope.graph.file? scope.place with
  | none =>
    rw [Scope.file, hFound] at h
    cases h
  | some file =>
    rw [Scope.file_of_file? hFound]
    exact List.mem_of_getElem? hFound

section

variable {params : Parameters} {scope : Scope} {names : LocalNames} {lines : List Line}
  (hPrepared : Graph.Prepared scope.graph scope.index) (hNames : names.Distinct)
  (hUses : ∀ line ∈ params.packageUses names, line ∈ lines)
include hNames hUses

theorem introduces_of_get? {importPath package : String} (h : names.get? importPath = some package) :
    LocalNames.Introduces params names lines importPath package := by
  obtain ⟨hGet, hUse, hUnique⟩ := hNames.introduces params h
  exact ⟨hGet, hUses _ hUse, hUnique⟩

include hPrepared

theorem reaches_of_resolve {typeName : String} {r : Reference} (hResolve : scope.resolve typeName = .ok r)
    (hEntry : scope.graph.isEntry r.symbol = false)
    (hPackages : ∀ importPath ∈ r.packages, ∃ package, names.get? importPath = some package) :
    Reaches params scope names lines r.symbol r.name (r.text names) := by
  obtain ⟨hGet, hRefer⟩ := resolve_eq_ok_iff.mp hResolve
  have hDeclarable := hPrepared.declarable (hPrepared.found _ _ hGet) hEntry
  have hHome : r.home = scope.homeOf r.symbol.file := congrArg Reference.home hRefer
  have hName : r.name = typePathName (scope.graph.typeName r.symbol) := congrArg Reference.name hRefer
  have hExported : r.name ∈ scope.graph.exportedNames r.symbol := by
    rw [hName]
    exact hDeclarable.typePathName_mem
  constructor
  case exported => exact hExported
  case declared => exact fun model hModel => declares_exportedNames hModel hDeclarable params _ hExported
  case here =>
    intro hHere
    rw [Reference.text, hHome, Scope.homeOf, if_pos hHere]
  case sibling =>
    intro hOther hSame
    rw [Reference.text, hHome, Scope.homeOf, if_neg hOther, if_pos hSame]
  case package =>
    intro hOther
    have hElsewhere : r.home = .package (scope.graph.importPathOf r.symbol.file) := by
      rw [hHome, Scope.homeOf, if_neg, if_neg hOther]
      intro hHere
      rw [hHere.1, importPathOf_place] at hOther
      exact hOther rfl
    obtain ⟨package, hPackage⟩ := hPackages (scope.graph.importPathOf r.symbol.file) (by
      rw [Reference.packages, hElsewhere]
      exact List.mem_singleton_self _)
    refine ⟨package, introduces_of_get? hNames hUses hPackage, ?_⟩
    rw [Reference.text, hElsewhere]
    dsimp only
    rw [LocalNames.get, hPackage, Option.getD_some]

theorem reaches_of_imported {s : Symbol} (hS : s ∈ scope.file.imported)
    (hOther : scope.graph.importPathOf s.file ≠ scope.file.importPath) {name : String}
    (hName : name ∈ scope.graph.exportedNames s) {package : String}
    (hPackage : names.get? (scope.graph.importPathOf s.file) = some package) :
    Reaches params scope names lines s name
      (names.get (scope.graph.importPathOf s.file) ++ "::" ++ name) := by
  have hDeclarable := hPrepared.declarable_of_imported (file_mem_of_imported hS) hS (List.ne_nil_of_mem hName)
  constructor
  case exported => exact hName
  case declared => exact fun model hModel => declares_exportedNames hModel hDeclarable params _ hName
  case here =>
    intro hHere
    rw [hHere.1, importPathOf_place] at hOther
    exact absurd rfl hOther
  case sibling => exact fun _ hSame => absurd hSame hOther
  case package =>
    intro _
    refine ⟨package, introduces_of_get? hNames hUses hPackage, ?_⟩
    rw [LocalNames.get, hPackage, Option.getD_some]

end

/-! ### What files introduce -/

namespace ModelFile

variable {scope : Scope} {model : ModelFile}

theorem distinct_names (h : ofScope scope = .ok model) : model.names.Distinct := by
  unfold ofScope at h
  split at h
  · cases h
  · cases h
    exact LocalNames.distinct_ofPaths _

theorem packageUses_subset (params : Parameters) (model : ModelFile) :
    ∀ line ∈ params.packageUses model.names, line ∈ model.lines params := by
  intro line hLine
  unfold lines uses
  exact List.mem_append_left _ (List.mem_append_left _ (List.mem_append_right _
    (List.mem_append_right _ hLine)))

theorem mem_aliasLines {line : Line} (h : line ∈ model.aliasLines) : line = .blank ∨
    ∃ a ∈ model.aliases, ∃ name ∈ a.names,
      line = code ("pub use " ++ (model.names.get a.importPath ++ "::" ++ name) ++ ";") := by
  unfold aliasLines at h
  dsimp only at h
  split at h
  · cases h
  · rcases List.mem_append.mp h with hItem | hBlank
    · obtain ⟨a, hA, hItem⟩ := List.mem_flatMap.mp hItem
      obtain ⟨name, hName, rfl⟩ := List.mem_map.mp hItem
      exact .inr ⟨a, hA, name, hName, by simp only [String.append_assoc]⟩
    · exact .inl (List.mem_singleton.mp hBlank)

/-- What a model passes on comes from other packages, which it introduces. -/
theorem exists_imported (h : ofScope scope = .ok model) {a : Alias} (hA : a ∈ model.aliases) :
    ∃ s ∈ scope.file.imported, a = ⟨scope.graph.importPathOf s.file, scope.graph.exportedNames s⟩ ∧
      scope.graph.importPathOf s.file ≠ scope.file.importPath ∧
      ∃ package, model.names.get? (scope.graph.importPathOf s.file) = some package := by
  unfold ofScope at h
  split at h
  · cases h
  · cases h
    obtain ⟨s, hS, hAlias⟩ := List.mem_filterMap.mp hA
    dsimp only at hAlias
    split at hAlias
    · cases hAlias
    · rename_i hKept
      cases hAlias
      refine ⟨s, hS, rfl, fun hSame => hKept (.inl hSame), ?_⟩
      refine LocalNames.exists_get?_ofPaths (List.mem_append_left _ ?_)
      exact List.mem_map_of_mem hA

end ModelFile

namespace ApiFile

variable {scope : Scope} {rules : Http.Rules} {api : ApiFile}

theorem distinct_names (h : ofScope scope rules = .ok api) : api.names.Distinct := by
  unfold ofScope at h
  split at h
  · cases h
  · cases h
    exact LocalNames.distinct_ofPaths _

theorem packageUses_subset (config : Config) (api : ApiFile) :
    ∀ line ∈ config.params.packageUses api.names, line ∈ api.lines config := by
  intro line hLine
  unfold lines uses
  exact List.mem_append_left _ (List.mem_append_left _ (List.mem_append_right _
    (List.mem_append_right _ hLine)))

end ApiFile

end Emit

/-! ### Projects -/

namespace Project

theorem mem_fields {scope : Scope} {m : MessageNode} (hM : m ∈ scope.declaredMessages) {f : FieldDecl}
    (hF : f ∈ m.decl.fields) : f ∈ scope.graph.fields := by
  have hMessages := (List.mem_filter.mp hM).1
  cases hFile : scope.graph.file? scope.place with
  | none =>
    rw [Scope.file, hFile] at hMessages
    cases hMessages
  | some file =>
    rw [Scope.file_of_file? hFile] at hMessages
    exact List.mem_flatMap.mpr ⟨m, List.mem_flatMap.mpr ⟨file, List.mem_of_getElem? hFile, hMessages⟩, hF⟩

theorem mem_payloadNames {scope : Scope} {service : ServiceDecl} (hService : service ∈ scope.file.decl.services)
    {method : MethodDecl} (hMethod : method ∈ service.methods) :
    method.inputType ∈ scope.graph.payloadNames ∧ method.outputType ∈ scope.graph.payloadNames := by
  cases hFile : scope.graph.file? scope.place with
  | none =>
    rw [Scope.file, hFile] at hService
    cases hService
  | some file =>
    rw [Scope.file_of_file? hFile] at hService
    have hMem : ∀ typeName ∈ [method.inputType, method.outputType], typeName ∈ scope.graph.payloadNames :=
      fun typeName hName => List.mem_flatMap.mpr ⟨file, List.mem_of_getElem? hFile,
        List.mem_flatMap.mpr ⟨service, hService, List.mem_flatMap.mpr ⟨method, hMethod, hName⟩⟩⟩
    exact ⟨hMem _ List.mem_cons_self, hMem _ (List.mem_cons_of_mem _ List.mem_cons_self)⟩

theorem resolve_of_payload {scope : Scope} {typeName : String} {payload : Payload × Bool} {r : Reference}
    (h : scope.payload typeName = .ok payload) (hR : r ∈ payload.1.references) :
    scope.resolve typeName = .ok r := by
  unfold Scope.payload at h
  split at h
  · cases h
    cases hR
  · rw [Scope.resolve]
    cases hGet : scope.index.get typeName with
    | error e =>
      rw [hGet] at h
      cases h
    | ok s =>
      rw [hGet] at h
      cases s <;> · cases h; rw [List.mem_singleton.mp hR]

theorem exists_typedFields {scope : Scope} (path : SourcePath) (i : Nat) {fields : List FieldDecl}
    (h : ∀ f ∈ fields, ∃ role, scope.role f = .ok role) :
    ∃ typed, scope.typedFields path i fields = .ok typed := by
  induction fields generalizing i with
  | nil => exact ⟨[], rfl⟩
  | cons field rest ih =>
    obtain ⟨role, hRole⟩ := h field List.mem_cons_self
    obtain ⟨others, hOthers⟩ := ih (i + 1) fun f hF => h f (List.mem_cons_of_mem _ hF)
    exact ⟨_, bind_ok_iff.mpr ⟨role, hRole, bind_ok_iff.mpr ⟨others, hOthers, rfl⟩⟩⟩

theorem exists_model {scope : Scope}
    (h : ∀ m ∈ scope.declaredMessages, ∀ f ∈ m.decl.fields, ∃ role, scope.role f = .ok role) :
    ∃ model, ModelFile.ofScope scope = .ok model := by
  have hMessages : ∃ messages, scope.typedMessages = .ok messages := by
    refine exists_mapM_ok fun m hM => ?_
    obtain ⟨typed, hTyped⟩ := exists_typedFields m.path 0 (h m hM)
    exact ⟨⟨m, typed⟩, by rw [Scope.typedMessage, hTyped]⟩
  obtain ⟨messages, hMessages⟩ := hMessages
  exact ⟨_, by rw [ModelFile.ofScope, hMessages]⟩

variable {project : Project} {files : List FileDecl} {names : List String}

/-- Every type that an emitted file names and every name that a model passes on is declared in the model
of its file, and the path says how that file is reached. A model can be made wherever repeated fields have
no type names that lead nowhere. -/
theorem paths_reach
    (hPrepare : Graph.prepare files names project.config.params = .ok (project.graph, project.index))
    (hTypes : project.graph.TypesResolve project.index) (hEntries : project.graph.EntriesMapped project.index)
    (hPlain : project.graph.EntriesPlain project.index) (place : Nat) :
    (∀ model, project.model place = .ok model →
      (∀ r ∈ model.references, (∃ f ∈ project.graph.fields, project.index.get f.typeName = .ok r.symbol) ∧
        Reaches project.config.params (project.scope place .model) model.names
          (model.lines project.config.params) r.symbol r.name (r.text model.names)) ∧
      ∀ line ∈ model.aliasLines, line = .blank ∨
        ∃ s ∈ (project.scope place .model).file.imported, ∃ name path,
          line = code ("pub use " ++ path ++ ";") ∧
          Reaches project.config.params (project.scope place .model) model.names
            (model.lines project.config.params) s name path) ∧
    (∀ api, project.api place = .ok api → ∀ r ∈ api.references,
      (∃ typeName ∈ project.graph.payloadNames, project.index.get typeName = .ok r.symbol) ∧
        Reaches project.config.params (project.scope place .api) api.names (api.lines project.config)
          r.symbol r.name (r.text api.names)) ∧
    ((∀ m ∈ (project.scope place .model).declaredMessages, ∀ f ∈ m.decl.fields,
        f.label = .repeated → f.typeName ≠ "" → ∃ s, project.index.get f.typeName = .ok s) →
      ∃ model, project.model place = .ok model) := by
  have hPrepared := Graph.prepared_of_prepare hPrepare
  refine ⟨?_, ?_, ?_⟩
  · intro model hModel
    have hNames := ModelFile.distinct_names hModel
    have hUses := ModelFile.packageUses_subset project.config.params model
    constructor
    · intro r hR
      obtain ⟨⟨m, hM, f, hF, role, hRole, hMem⟩, hPackages⟩ := exists_field_of_mem hModel hR
      obtain ⟨g, hG, hResolve, hEntry⟩ :=
        not_isEntry_of_role hTypes hEntries hPlain (mem_fields hM hF) hRole hMem
      exact ⟨⟨g, hG, (resolve_eq_ok_iff.mp hResolve).1⟩,
        reaches_of_resolve hPrepared hNames hUses hResolve hEntry hPackages⟩
    · intro line hLine
      refine (ModelFile.mem_aliasLines hLine).imp_right ?_
      rintro ⟨a, hA, name, hName, rfl⟩
      obtain ⟨s, hS, rfl, hOther, package, hPackage⟩ := ModelFile.exists_imported hModel hA
      exact ⟨s, hS, name, _, rfl,
        reaches_of_imported hPrepared hNames hUses hS hOther hName hPackage⟩
  · intro api hApi r hR
    obtain ⟨⟨service, hService, method, hMethod, payload, hPayload, hMem⟩, hPackages⟩ :=
      exists_method_of_mem hApi hR
    have hName : ∃ typeName ∈ project.graph.payloadNames,
        (project.scope place .api).resolve typeName = .ok r := by
      obtain ⟨hInput, hOutput⟩ := mem_payloadNames hService hMethod
      rcases hPayload with hPayload | hPayload
      · exact ⟨_, hInput, resolve_of_payload hPayload hMem⟩
      · exact ⟨_, hOutput, resolve_of_payload hPayload hMem⟩
    obtain ⟨typeName, hTypeName, hResolve⟩ := hName
    have hEntry := isEntry_of_leadsTo hResolve (hEntries.methods typeName hTypeName)
    exact ⟨⟨typeName, hTypeName, (resolve_eq_ok_iff.mp hResolve).1⟩,
      reaches_of_resolve hPrepared (ApiFile.distinct_names hApi)
        (ApiFile.packageUses_subset project.config api) hResolve hEntry hPackages⟩
  · intro hRepeated
    exact exists_model fun m hM f hF => exists_role hTypes (mem_fields hM hF) (hRepeated m hM f hF)

/-- A file that passes on what another package declares, and maps texts to it. -/
def cartFiles : List FileDecl :=
  [{ name := "stock/item.proto", package := "stock",
     messages := [.mk "Item" [] [] [] [] [] [] [] false false []] },
   { name := "shop/cart.proto", package := "shop", imports := ["stock/item.proto"], publicImports := [0],
     messages := [.mk "Cart"
       [{ name := "items", label := .repeated, type := .message, typeName := ".shop.Cart.ItemsEntry" }]
       [.mk "ItemsEntry" [{ name := "key", type := .string },
            { name := "value", type := .message, typeName := ".stock.Item" }]
          [] [] [] [] [] [] true false []]
       [] [] [] [] [] false false []] }]

theorem paths_reach_cartFiles : ∃ (g : Graph) (index : NameIndex),
    Graph.prepare cartFiles ["shop/cart.proto"] {} = .ok (g, index) ∧ g.TypesResolve index ∧
      g.EntriesMapped index ∧ g.EntriesPlain index ∧
      ∃ model, Project.model ⟨g, index, {}, {}⟩ 1 = .ok model ∧ ∃ r ∈ model.references,
        r.text model.names = "stock::Item" ∧
          Reaches {} ⟨g, index, 1, .model⟩ model.names (model.lines {}) r.symbol r.name "stock::Item" := by
  obtain ⟨g, index, hPrepare, hTypes, hEntries, hPlain, model, hModel, r, hR, hText⟩ :
      ∃ (g : Graph) (index : NameIndex),
        Graph.prepare cartFiles ["shop/cart.proto"] {} = .ok (g, index) ∧ g.TypesResolve index ∧
          g.EntriesMapped index ∧ g.EntriesPlain index ∧
          ∃ model, Project.model ⟨g, index, {}, {}⟩ 1 = .ok model ∧ ∃ r ∈ model.references,
            r.text model.names = "stock::Item" :=
    ⟨_, _, rfl, by decide +kernel, by decide +kernel, by decide +kernel, _, rfl, _, List.mem_cons_self,
      by decide +kernel⟩
  refine ⟨g, index, hPrepare, hTypes, hEntries, hPlain, model, hModel, r, hR, hText, ?_⟩
  have hPaths := @paths_reach ⟨g, index, {}, {}⟩ _ _ hPrepare hTypes hEntries hPlain 1
  exact hText ▸ ((hPaths.1 model hModel).1 r hR).2

end Project

/-- A request whose types resolve and whose map entries are used by repeated fields only, with a file both
passes succeed on, though its model refers to a type that the model of no file declares. -/
def Dangles (files : List FileDecl) : Prop :=
  ∃ project : Project, Graph.prepare files ["a.proto"] {} = .ok (project.graph, project.index) ∧
    project.graph.TypesResolve project.index ∧ project.graph.EntriesMapped project.index ∧
    ∃ model api, project.model 0 = .ok model ∧ project.api 0 = .ok api ∧ ∃ r ∈ model.references,
      ¬ ∃ home, project.model r.symbol.file = .ok home ∧ Declares (home.lines {}) r.name

def mapsOfMaps : List FileDecl :=
  [{ name := "a.proto",
     messages := [.mk "M" [{ name := "x", label := .repeated, type := .message, typeName := ".M.XEntry" }]
       [.mk "XEntry" [{ name := "key", type := .string },
            { name := "value", label := .repeated, type := .message, typeName := ".M.YEntry" }]
          [] [] [] [] [] [] true false [],
        .mk "YEntry" [{ name := "key", type := .string }, { name := "value", type := .string }]
          [] [] [] [] [] [] true false []]
       [] [] [] [] [] false false []] }]

def mapsWithoutName : List FileDecl :=
  [{ name := "a.proto",
     messages := [.mk "M" [{ name := "x", label := .repeated, type := .message }] [] [] [] [] [] [] false
         false [],
       .mk "" [{ name := "key", type := .string }, { name := "value", type := .string }]
         [] [] [] [] [] [] true false []] }]

def textsOfType : List FileDecl :=
  [{ name := "a.proto", package := "p",
     messages := [.mk "M" [{ name := "x", type := .message, typeName := ".p.N" }] [] [] [] [] [] [] false
       false []] },
   { name := "b.proto", package := "p",
     messages := [.mk "N" [{ name := "y", label := .repeated, type := .string, typeName := ".O" }] [] [] [] []
       [] [] false false []] }]

theorem not_declares_of_ok {project : Project} {place : Nat} {home : ModelFile}
    (h : project.model place = .ok home) {name : String} (hName : ¬ Declares (home.lines {}) name) :
    ¬ ∃ home, project.model place = .ok home ∧ Declares (home.lines {}) name := by
  rintro ⟨other, hOther, hDeclares⟩
  exact hName (Except.ok.inj (h.symm.trans hOther) ▸ hDeclares)

theorem not_declares_of_error {project : Project} {place : Nat} {e : Error}
    (h : project.model place = .error e) (name : String) :
    ¬ ∃ home, project.model place = .ok home ∧ Declares (home.lines {}) name := by
  rintro ⟨other, hOther, -⟩
  exact nomatch h.symm.trans hOther

theorem dangles : Dangles mapsOfMaps ∧ Dangles mapsWithoutName ∧ Dangles textsOfType := by
  refine ⟨?_, ?_, ?_⟩
  · exact ⟨⟨_, _, {}, {}⟩, rfl, by decide +kernel, by decide +kernel, _, _, rfl, rfl, _,
      List.mem_cons_self, not_declares_of_ok rfl (by decide +kernel)⟩
  · exact ⟨⟨_, _, {}, {}⟩, rfl, by decide +kernel, by decide +kernel, _, _, rfl, rfl, _,
      List.mem_cons_self, not_declares_of_ok rfl (by decide +kernel)⟩
  · exact ⟨⟨_, _, {}, {}⟩, rfl, by decide +kernel, by decide +kernel, _, _, rfl, rfl, _,
      List.mem_cons_self, not_declares_of_error rfl _⟩

end ProtoBind
