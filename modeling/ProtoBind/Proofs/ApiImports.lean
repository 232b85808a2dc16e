import ProtoBind.Proofs.AllOrNothing
import ProtoBind.Proofs.ApiTexts
import ProtoBind.Proofs.KeptReferences
import ProtoBind.Proofs.WrittenReferences

/-!
# What an API brings in

The items at the top of an API are there for what its body prints: the router for its services, futures and
shared handlers for their methods, the bindings for the requests with a body, and the packages of the types
that the methods take and give.
-/

set_option autoImplicit false

namespace ProtoBind

open Naming Text Source

namespace Emit

namespace ApiFile

variable {scope : Scope} {rules : Http.Rules} {api : ApiFile}

def body (config : Config) (api : ApiFile) : List Line :=
  api.services.flatMap fun service =>
    service.traitLines api.names ++ service.registerLines api.names config.errorCode

def Prints (config : Config) (api : ApiFile) (s : Symbol) : Prop :=
  ∃ r ∈ api.references, r.symbol = s ∧ Shows (api.body config) (r.text api.names)

def routerUse (params : Parameters) : String := "use " ++ params.routerPath ++ ";"

def bindingUse (params : Parameters) : String := "use " ++ params.routerPath ++ "::binding;"

def futureUse : String := "use std::future::Future;"

def arcUse : String := "use std::sync::Arc;"

/-- What an API brings in fits its body. The items are some fixed ones and one for each of some packages,
the packages are those of the symbols that the body prints, and the fixed items are there for the services
and methods of the schema file and for the bindings that the body refers to. -/
structure ImportsFit (config : Config) (scope : Scope) (api : ApiFile) (fixed paths : List String) : Prop where
  lines : api.lines config = header api.file ++ api.uses config.params ++ [.blank] ++ api.body config
  block : api.uses config.params = fixed.map code ++ paths.map fun path =>
    code (config.params.packageUse path (api.names.get path))
  fixed : fixed.Sublist [routerUse config.params, bindingUse config.params, futureUse, arcUse]
  once : (api.uses config.params).Nodup
  ascending : paths.Pairwise (· < ·)
  packages : ∀ path, path ∈ paths ↔ path ≠ scope.file.importPath ∧
    ∃ s, scope.graph.importPathOf s.file = path ∧ api.Prints config s
  names : ∀ other : LocalNames, (∀ path ∈ paths, other.get path = api.names.get path) →
    { api with names := other }.body config = api.body config
  router : code (routerUse config.params) ∈ api.uses config.params ↔ scope.file.decl.services ≠ []
  future : code futureUse ∈ api.uses config.params ↔ ∃ service ∈ scope.file.decl.services, service.methods ≠ []
  arc : code arcUse ∈ api.uses config.params ↔ ∃ service ∈ scope.file.decl.services, service.methods ≠ []
  binding : code (bindingUse config.params) ∈ api.uses config.params
    ↔ ∃ text ∈ codeTexts (api.body config), Headed bindingHeads text

/-! ### Fixed items -/

def fixedUses (params : Parameters) (api : ApiFile) : List String :=
  (if api.services.isEmpty then [] else [routerUse params])
    ++ (if api.endpoints.any Endpoint.usesBinding then [bindingUse params] else [])
    ++ (if api.endpoints.isEmpty then [] else [futureUse, arcUse])

theorem fixedUses_sublist (params : Parameters) (api : ApiFile) :
    (api.fixedUses params).Sublist [routerUse params, bindingUse params, futureUse, arcUse] := by
  have hRouter : (if api.services.isEmpty then [] else [routerUse params]).Sublist [routerUse params] := by
    split <;> simp
  have hBinding : (if api.endpoints.any Endpoint.usesBinding then [bindingUse params] else []).Sublist
      [bindingUse params] := by
    split <;> simp
  have hMethods : (if api.endpoints.isEmpty then [] else [futureUse, arcUse]).Sublist [futureUse, arcUse] := by
    split <;> simp
  exact (hRouter.append hBinding).append hMethods

theorem uses_eq (params : Parameters) (api : ApiFile) :
    api.uses params = (api.fixedUses params).map code ++ params.packageUses api.names := by
  unfold uses fixedUses
  split <;> split <;> split <;> rfl

theorem broughtIn_routerUse (params : Parameters) : broughtIn (routerUse params) = "router" :=
  broughtIn_path (getLast?_routerSegments params) (forall_mem_of_all (by decide))

theorem broughtIn_bindingUse (params : Parameters) : broughtIn (bindingUse params) = "binding" := by
  have hSplit : "::binding;" = "::" ++ ("binding" ++ ";") := rfl
  have hColon : "::".toList.getLast? = some ':' := rfl
  rw [bindingUse, hSplit, ← String.append_assoc, ← String.append_assoc]
  refine broughtIn_eq ?_ (forall_mem_of_all (by decide))
  intro c hC
  rw [getLast?_append_of_ne_nil hColon] at hC
  cases hC
  rfl

theorem not_isLocal_fixed (params : Parameters) {item : String}
    (h : item ∈ [routerUse params, bindingUse params, futureUse, arcUse]) : ¬ IsLocal (broughtIn item) := by
  have hNames : broughtIn item ∈ ["router", "binding", "Future", "Arc"] := by
    have hMapped := List.mem_map_of_mem (f := broughtIn) h
    rw [List.map_cons, List.map_cons, broughtIn_routerUse, broughtIn_bindingUse] at hMapped
    exact hMapped
  simp only [List.mem_cons, List.not_mem_nil, or_false] at hNames
  rcases hNames with hName | hName | hName | hName
  · rw [hName]
    exact not_isLocal_of_mem (by decide)
  · rw [hName]
    exact not_isLocal_of_mem (by decide)
  · rw [hName]
    exact @not_isLocal_of_isUpper _ 'F' (by decide) rfl
  · rw [hName]
    exact @not_isLocal_of_isUpper _ 'A' (by decide) rfl

theorem nodup_fixed (params : Parameters) : [routerUse params, bindingUse params, futureUse, arcUse].Nodup := by
  refine List.Nodup.of_map broughtIn ?_
  rw [List.map_cons, List.map_cons, broughtIn_routerUse, broughtIn_bindingUse]
  decide

theorem mem_fixedUses (params : Parameters) (api : ApiFile) :
    (routerUse params ∈ api.fixedUses params ↔ api.services ≠ []) ∧
      (bindingUse params ∈ api.fixedUses params ↔ ∃ e ∈ api.endpoints, e.usesBinding = true) ∧
      (futureUse ∈ api.fixedUses params ↔ api.endpoints ≠ []) ∧
      (arcUse ∈ api.fixedUses params ↔ api.endpoints ≠ []) := by
  have hApart := nodup_fixed params
  simp only [List.nodup_cons, List.mem_cons, List.not_mem_nil, or_false, not_or] at hApart
  obtain ⟨⟨hBinding, hFuture, hArc⟩, ⟨hBindingFuture, hBindingArc⟩, hFutureArc, -⟩ := hApart
  rw [← List.any_eq_true, ne_eq, ne_eq, ← List.isEmpty_iff, ← List.isEmpty_iff, fixedUses]
  cases api.services.isEmpty <;> cases api.endpoints.any Endpoint.usesBinding <;> cases api.endpoints.isEmpty <;>
    simp [hBinding, hFuture, hArc, hBindingFuture, hBindingArc, hFutureArc, Ne.symm hBinding, Ne.symm hFuture,
      Ne.symm hArc, Ne.symm hBindingFuture, Ne.symm hBindingArc, Ne.symm hFutureArc]

/-! ### Methods of services -/

theorem length_of_endpoints {service : ServiceDecl} {path : SourcePath} {i : Nat} {used : List String}
    {methods : List MethodDecl} {endpoints : List Endpoint}
    (h : scope.endpoints rules service path i used methods = .ok endpoints) :
    endpoints.length = methods.length := by
  induction methods generalizing i used endpoints with
  | nil =>
    cases h
    rfl
  | cons method rest ih =>
    obtain ⟨e, -, h⟩ := bind_ok_iff.mp h
    obtain ⟨others, hOthers, h⟩ := bind_ok_iff.mp h
    cases h
    rw [List.length_cons, List.length_cons, ih hOthers]

theorem lengths_of_services {i : Nat} {decls : List ServiceDecl} {services : List Service}
    (h : scope.services rules i decls = .ok services) :
    services.map (·.endpoints.length) = decls.map (·.methods.length) := by
  induction decls generalizing i services with
  | nil =>
    cases h
    rfl
  | cons decl rest ih =>
    obtain ⟨endpoints, hEndpoints, h⟩ := bind_ok_iff.mp h
    obtain ⟨others, hOthers, h⟩ := bind_ok_iff.mp h
    cases h
    rw [List.map_cons, List.map_cons, length_of_endpoints hEndpoints, ih hOthers]

variable (h : ofScope scope rules = .ok api)
include h

theorem lengths_eq :
    api.services.map (·.endpoints.length) = scope.file.decl.services.map (·.methods.length) := by
  unfold ofScope at h
  split at h
  · cases h
  · rename_i services hServices
    cases h
    exact lengths_of_services hServices

theorem services_ne_nil_iff : api.services ≠ [] ↔ scope.file.decl.services ≠ [] := by
  rw [ne_eq, ne_eq, ← List.map_eq_nil_iff, lengths_eq h, List.map_eq_nil_iff]

theorem endpoints_ne_nil_iff :
    api.endpoints ≠ [] ↔ ∃ service ∈ scope.file.decl.services, service.methods ≠ [] := by
  have hPositive : api.endpoints ≠ [] ↔ ∃ n ∈ api.services.map (·.endpoints.length), n ≠ 0 := by
    simp [endpoints]
  rw [hPositive, lengths_eq h]
  simp

theorem exists_names : ∃ importPaths, api.names = .ofPaths importPaths := by
  unfold ofScope at h
  split at h
  · cases h
  · cases h
    exact ⟨_, rfl⟩

theorem nodup_uses (params : Parameters) : (api.uses params).Nodup := by
  obtain ⟨importPaths, hNames⟩ := exists_names h
  rw [uses_eq, hNames]
  refine LocalNames.nodup_uses params ?_ importPaths ?_
  · exact fun item hItem => not_isLocal_fixed params ((fixedUses_sublist params api).subset hItem)
  · exact (nodup_fixed params).sublist (fixedUses_sublist params api)

theorem mem_uses_iff (params : Parameters) {item : String}
    (hItem : item ∈ [routerUse params, bindingUse params, futureUse, arcUse]) :
    code item ∈ api.uses params ↔ item ∈ api.fixedUses params := by
  obtain ⟨importPaths, hNames⟩ := exists_names h
  rw [uses_eq, hNames]
  exact LocalNames.mem_uses_iff params (not_isLocal_fixed params hItem)

omit h

/-! ### What the body holds -/

theorem exists_binding_iff (config : Config) : (∃ text ∈ codeTexts (api.body config), Headed bindingHeads text)
    ↔ ∃ e ∈ api.endpoints, e.usesBinding = true := by
  constructor
  · rintro ⟨text, hText, hBinding⟩
    have hForm : ServiceText (∃ e ∈ api.endpoints, e.usesBinding = true) text := by
      simp only [body, codeTexts_append, codeTexts_flatMap, List.mem_flatMap, List.mem_append] at hText
      obtain ⟨s, hS, hTrait | hRegister⟩ := hText
      · exact Service.serviceText_traitLines _ s text hTrait
      · refine Service.serviceText_registerLines _ _ ?_ text hRegister
        exact fun e hE hUses => ⟨e, List.mem_flatMap.mpr ⟨s, hS, hE⟩, hUses⟩
    exact hForm.bound hBinding
  · rintro ⟨e, hE, hUses⟩
    obtain ⟨s, hS, hMem⟩ := List.mem_flatMap.mp hE
    obtain ⟨text, hText, hBinding⟩ := Endpoint.exists_binding_dispatchLines api.names config.errorCode hUses
    refine ⟨text, ?_, hBinding⟩
    have hRoute := Endpoint.dispatchTexts_subset api.names config.errorCode e hText
    have hRegister := Service.routeTexts_subset api.names config.errorCode hMem hRoute
    simp only [body, codeTexts_append, codeTexts_flatMap, List.mem_flatMap, List.mem_append]
    exact ⟨s, hS, .inr hRegister⟩

theorem shows_of_mem (config : Config) {r : Reference} (hR : r ∈ api.references) :
    Shows (api.body config) (r.text api.names) := by
  obtain ⟨e, hE, hMem⟩ := List.mem_flatMap.mp hR
  obtain ⟨s, hS, hEndpoint⟩ := List.mem_flatMap.mp hE
  obtain ⟨text, hText, hPart⟩ := @Service.shows api.names s e hEndpoint r hMem
  refine ⟨text, ?_, hPart⟩
  simp only [body, codeTexts_append, codeTexts_flatMap, List.mem_flatMap, List.mem_append]
  exact ⟨s, hS, .inl hText⟩

/-- The local names of other packages than those introduced do not stand in the body. -/
theorem body_congr (config : Config) {other : LocalNames} (hReferences : Agree api.names other api.references) :
    { api with names := other }.body config = api.body config := by
  refine List.flatMap_congr fun s hS => ?_
  have hService : Agree api.names other (s.endpoints.flatMap Endpoint.references) := by
    refine hReferences.mono fun r hR => ?_
    obtain ⟨e, hE, hMem⟩ := List.mem_flatMap.mp hR
    exact List.mem_flatMap.mpr ⟨e, List.mem_flatMap.mpr ⟨s, hS, hE⟩, hMem⟩
  obtain ⟨hTrait, hRegister⟩ := Service.lines_congr hService config.errorCode
  rw [hTrait, hRegister]

/-! ### Packages -/

include h

/-- A package is introduced just where the body prints something of it. -/
theorem mem_paths_iff (config : Config) {path : String} : path ∈ api.names.paths ↔ path ≠ scope.file.importPath ∧
    ∃ s, scope.graph.importPathOf s.file = path ∧ api.Prints config s := by
  rw [mem_paths h]
  constructor
  · rintro ⟨r, hR, hPackage⟩
    rw [refers h hR, mem_packages_referTo] at hPackage
    exact ⟨hPackage.2, r.symbol, hPackage.1, r, hR, rfl, shows_of_mem config hR⟩
  · rintro ⟨hOther, s, rfl, r, hR, rfl, -⟩
    refine ⟨r, hR, ?_⟩
    rw [refers h hR, mem_packages_referTo]
    exact ⟨rfl, hOther⟩

theorem importsFit (config : Config) :
    api.ImportsFit config scope (api.fixedUses config.params) api.names.paths := by
  obtain ⟨importPaths, hNames⟩ := exists_names h
  obtain ⟨hRouter, hBinding, hFuture, hArc⟩ := mem_fixedUses config.params api
  constructor
  case lines => rfl
  case block => rw [uses_eq, hNames, LocalNames.packageUses_eq]
  case fixed => exact fixedUses_sublist config.params api
  case once => exact nodup_uses h config.params
  case ascending => exact api.names.paths_ascending
  case packages => exact fun path => mem_paths_iff h config
  case names =>
    intro other hOther
    exact body_congr config fun r hR path hPath => hOther _ ((mem_paths h).mpr ⟨r, hR, hPath⟩)
  case router => rw [mem_uses_iff h config.params (by simp), hRouter, services_ne_nil_iff h]
  case future => rw [mem_uses_iff h config.params (by simp), hFuture, endpoints_ne_nil_iff h]
  case arc => rw [mem_uses_iff h config.params (by simp), hArc, endpoints_ne_nil_iff h]
  case binding => rw [mem_uses_iff h config.params (by simp), hBinding, exists_binding_iff]

end ApiFile

end Emit

end ProtoBind
