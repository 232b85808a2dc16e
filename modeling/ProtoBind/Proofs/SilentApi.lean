import ProtoBind.Emit.Api
import ProtoBind.Proofs.SilentModel

/-!
# APIs without comments

What an API declares besides its comments. Of a comment on a method three directives count, each only
where it is asked for: the middleware always, the check of the binding if there is something to bind,
the binding itself if that comes from a body.
-/

set_option autoImplicit false

namespace ProtoBind.Emit

open Naming Text Http

namespace Scope

variable (scope : Scope)

theorem payload_silent (typeName : String) : scope.silent.payload typeName = scope.payload typeName := by
  unfold payload
  simp only [referTo_silent]
  simp only [silent, Graph.message?_silent]

theorem routeOf_silent (rules : Rules) (service : ServiceDecl) (method : MethodDecl) :
    scope.silent.routeOf rules service method = scope.routeOf rules service method := by
  unfold routeOf
  rw [file_silent]
  rfl

def Binds (method : MethodDecl) : Prop := ∃ input, scope.payload method.inputType = .ok (input, true)

def Posts (rules : Rules) (service : ServiceDecl) (method : MethodDecl) : Prop :=
  ∃ rule route, scope.routeOf rules service method = .ok (rule, route) ∧ route.verb = .post

end Scope

def directivesAt (scope : Scope) (path : SourcePath) : Directives :=
  .ofComment? (scope.file.comment? path)

structure MethodAgrees (s t : Scope) (rules : Rules) (service : ServiceDecl) (method : MethodDecl)
    (path : SourcePath) : Prop where
  middleware : (directivesAt s path).middleware = (directivesAt t path).middleware
  bindcheck : s.Binds method → (directivesAt s path).bindcheck = (directivesAt t path).bindcheck
  binding : s.Binds method → s.Posts rules service method →
    (directivesAt s path).binding = (directivesAt t path).binding

/-- Comments on the methods of a file that ask for the same where they are asked. -/
def MethodsAgree (s t : Scope) (rules : Rules) : Prop :=
  ∀ (i : Nat) service, s.file.decl.services[i]? = some service →
    ∀ (k : Nat) method, service.methods[k]? = some method →
      MethodAgrees s t rules service method ((SourcePath.service i).method k)

instance (scope : Scope) (method : MethodDecl) : Decidable (scope.Binds method) :=
  decidable_of_iff ((scope.payload method.inputType).toOption.any Prod.snd = true)
    (any_toOption_iff.trans (by simp [Scope.Binds]))

instance (scope : Scope) (rules : Rules) (service : ServiceDecl) (method : MethodDecl) :
    Decidable (scope.Posts rules service method) :=
  decidable_of_iff ((scope.routeOf rules service method).toOption.any (fun found => found.2.verb == .post) = true)
    (any_toOption_iff.trans (by simp [Scope.Posts]))

instance (s t : Scope) (rules : Rules) (service : ServiceDecl) (method : MethodDecl) (path : SourcePath) :
    Decidable (MethodAgrees s t rules service method path) :=
  decidable_of_iff (_ ∧ (_ → _) ∧ (_ → _ → _))
    ⟨fun h => ⟨h.1, h.2.1, h.2.2⟩, fun h => ⟨h.middleware, h.bindcheck, h.binding⟩⟩

instance (s t : Scope) (rules : Rules) : Decidable (MethodsAgree s t rules) :=
  inferInstanceAs (Decidable (∀ (i : Nat) (service : ServiceDecl), s.file.decl.services[i]? = some service →
    ∀ (k : Nat) (method : MethodDecl), service.methods[k]? = some method →
      MethodAgrees s t rules service method ((SourcePath.service i).method k)))

/-! ### What is left without comments -/

/-- The method without its comment, and with those directives that count. -/
def Endpoint.bare (e : Endpoint) : Endpoint :=
  { e with
    comment := none
    directives :=
      { middleware := e.directives.middleware
        bindcheck := if e.binds then e.directives.bindcheck else true
        binding := if e.usesBinding then e.directives.binding else .json } }

def Service.bare (s : Service) : Service :=
  { s with comment := none, endpoints := s.endpoints.map Endpoint.bare }

def ApiFile.bare (api : ApiFile) : ApiFile :=
  { api with file := api.file.silent, services := api.services.map Service.bare }

section

variable {s t : Scope} (hSilent : s.silent = t.silent)
include hSilent

theorem payload_congr (typeName : String) : s.payload typeName = t.payload typeName := by
  rw [← Scope.payload_silent s, hSilent, Scope.payload_silent]

theorem routeOf_congr (rules : Rules) (service : ServiceDecl) (method : MethodDecl) :
    s.routeOf rules service method = t.routeOf rules service method := by
  rw [← Scope.routeOf_silent s, hSilent, Scope.routeOf_silent]

theorem endpoint_alike {rules : Rules} {service : ServiceDecl} {path : SourcePath} {used : List String}
    {method : MethodDecl} (hAgree : MethodAgrees s t rules service method path) :
    Alike (fun a b => a.bare = b.bare) (s.endpoint rules service path used method)
      (t.endpoint rules service path used method) := by
  unfold Scope.endpoint
  rw [← routeOf_congr hSilent, ← payload_congr hSilent, ← payload_congr hSilent]
  cases hRoute : s.routeOf rules service method with
  | error e => exact .error e
  | ok found =>
    obtain ⟨rule, route⟩ := found
    cases hInput : s.payload method.inputType with
    | error e => exact .error e
    | ok input =>
      obtain ⟨input, binds⟩ := input
      cases s.payload method.outputType with
      | error e => exact .error e
      | ok output =>
        refine .ok ?_
        have hCheck : binds = true →
            (directivesAt s path).bindcheck = (directivesAt t path).bindcheck := by
          rintro rfl
          exact hAgree.bindcheck ⟨input, hInput⟩
        have hBinding : binds = true → route.verb = .post →
            (directivesAt s path).binding = (directivesAt t path).binding := by
          rintro rfl hVerb
          exact hAgree.binding ⟨input, hInput⟩ ⟨rule, route, hRoute, hVerb⟩
        have hMiddleware := hAgree.middleware
        unfold directivesAt at hCheck hBinding hMiddleware
        cases binds with
        | false => simp [Endpoint.bare, Endpoint.usesBinding, hMiddleware]
        | true =>
          cases hVerb : route.verb with
          | get => simp [Endpoint.bare, Endpoint.usesBinding, hMiddleware, hCheck rfl, hVerb]
          | post =>
            simp [Endpoint.bare, Endpoint.usesBinding, hMiddleware, hCheck rfl, hVerb,
              hBinding rfl hVerb]

theorem endpoints_alike {rules : Rules} {service : ServiceDecl} {path : SourcePath}
    {methods : List MethodDecl} {i : Nat} {used : List String}
    (hAgree : ∀ (k : Nat) method, methods[k]? = some method →
      MethodAgrees s t rules service method (path.method (i + k))) :
    Alike (fun as bs => as.map Endpoint.bare = bs.map Endpoint.bare)
      (s.endpoints rules service path i used methods)
      (t.endpoints rules service path i used methods) := by
  induction methods generalizing i used with
  | nil => exact .ok rfl
  | cons method rest ih =>
    rw [Scope.endpoints, Scope.endpoints]
    refine Alike.bind (endpoint_alike hSilent (hAgree 0 method rfl)) ?_
    intro a b hHead
    have hName : a.bare.name = b.bare.name := congrArg Endpoint.name hHead
    change a.name = b.name at hName
    rw [hName]
    refine Alike.bind (ih ?_) ?_
    · intro k other hOther
      have hHere := hAgree (k + 1) other hOther
      rwa [Nat.add_comm k 1, ← Nat.add_assoc] at hHere
    · intro as bs hRest
      refine .ok ?_
      rw [List.map_cons, List.map_cons, hHead, hRest]

theorem services_alike {rules : Rules} {services : List ServiceDecl} {i : Nat}
    (hAgree : ∀ (k : Nat) service, services[k]? = some service →
      ∀ (j : Nat) method, service.methods[j]? = some method →
        MethodAgrees s t rules service method ((SourcePath.service (i + k)).method j)) :
    Alike (fun as bs => as.map Service.bare = bs.map Service.bare)
      (s.services rules i services) (t.services rules i services) := by
  induction services generalizing i with
  | nil => exact .ok rfl
  | cons service rest ih =>
    rw [Scope.services, Scope.services]
    refine Alike.bind (endpoints_alike hSilent ?_) ?_
    · intro j method hMethod
      rw [Nat.zero_add]
      exact hAgree 0 service rfl j method hMethod
    · intro as bs hEndpoints
      refine Alike.bind (ih ?_) ?_
      · intro k other hOther
        have hHere := hAgree (k + 1) other hOther
        rwa [Nat.add_comm k 1, ← Nat.add_assoc] at hHere
      · intro xs ys hRest
        refine .ok ?_
        rw [List.map_cons, List.map_cons, hRest]
        simp only [Service.bare, hEndpoints]

omit hSilent in
theorem packages_bare (services : List Service) :
    ApiFile.packages (services.map Service.bare) = ApiFile.packages services := by
  unfold ApiFile.packages
  rw [List.flatMap_map]
  congr 1
  funext service
  change (service.endpoints.map Endpoint.bare).flatMap _ = _
  rw [List.flatMap_map]
  rfl

theorem apiOfScope_alike {rules : Rules} (hAgree : MethodsAgree s t rules) :
    Alike (fun a b => a.bare = b.bare) (ApiFile.ofScope s rules) (ApiFile.ofScope t rules) := by
  have hFile : s.file.silent = t.file.silent := by
    rw [← Scope.file_silent, hSilent, Scope.file_silent]
  have hDecls : s.file.silent.decl.services = t.file.silent.decl.services :=
    congrArg (fun file : FileNode => file.decl.services) hFile
  change s.file.decl.services = t.file.decl.services at hDecls
  have hServices : Alike (fun as bs => as.map Service.bare = bs.map Service.bare)
      (s.services rules 0 s.file.decl.services) (t.services rules 0 t.file.decl.services) := by
    rw [← hDecls]
    refine services_alike hSilent ?_
    intro k service hService j method hMethod
    rw [Nat.zero_add]
    exact hAgree k service hService j method hMethod
  unfold ApiFile.ofScope
  generalize s.services rules 0 s.file.decl.services = x at hServices ⊢
  generalize t.services rules 0 t.file.decl.services = y at hServices ⊢
  cases hServices with
  | error e => exact .error e
  | @ok as bs hSame =>
    refine .ok ?_
    have hPackages : ApiFile.packages as = ApiFile.packages bs := by
      rw [← packages_bare, hSame, packages_bare]
    simp only [ApiFile.bare, hFile, hSame, hPackages]

end

/-! ### What is left of the lines -/

theorem bindCall_bare {e : Endpoint} (hBinds : e.binds = true) : e.bare.bindCall = e.bindCall := by
  unfold Endpoint.bindCall
  have hRoute : e.bare.route = e.route := rfl
  rw [hRoute]
  cases hVerb : e.route.verb with
  | get => rfl
  | post =>
    have hBinding : e.bare.directives.binding = e.directives.binding := by
      simp [Endpoint.bare, Endpoint.usesBinding, hBinds, hVerb]
    rw [hBinding]

theorem bindLines_bare (errorCode : Int) (e : Endpoint) :
    e.bare.bindLines errorCode = e.bindLines errorCode := by
  unfold Endpoint.bindLines
  have hSame : e.bare.binds = e.binds := rfl
  rw [hSame]
  cases hBinds : e.binds with
  | false => rfl
  | true =>
    have hCheck : e.bare.directives.bindcheck = e.directives.bindcheck := by
      simp [Endpoint.bare, hBinds]
    rw [hCheck, bindCall_bare hBinds]

theorem routeLines_bare (names : LocalNames) (errorCode : Int) (e : Endpoint) :
    e.bare.routeLines names errorCode = e.routeLines names errorCode := by
  have hDispatch : e.bare.dispatchLines names errorCode = e.dispatchLines names errorCode := by
    unfold Endpoint.dispatchLines
    rw [bindLines_bare]
    rfl
  unfold Endpoint.routeLines
  rw [hDispatch]
  rfl

theorem stripped_handler (names : LocalNames) (e : Endpoint) :
    stripped (e.handlerLines names) = stripped (e.bare.handlerLines names) := by
  unfold Endpoint.handlerLines
  rw [stripped_append, stripped_append, stripped_docLines, stripped_docLines]
  rfl

theorem stripped_trait (names : LocalNames) (s : Service) :
    stripped (s.traitLines names) = stripped (s.bare.traitLines names) := by
  unfold Service.traitLines
  rw [stripped_append, stripped_append, stripped_append, stripped_append, stripped_documentation,
    stripped_documentation, stripped_block, stripped_block, stripped_flatMap_bare (stripped_handler names)]
  rfl

theorem registerLines_bare (names : LocalNames) (errorCode : Int) (s : Service) :
    s.bare.registerLines names errorCode = s.registerLines names errorCode := by
  have hEmpty : s.bare.endpoints.isEmpty = s.endpoints.isEmpty := List.isEmpty_map
  have hEndpoints : s.bare.endpoints = s.endpoints.map Endpoint.bare := rfl
  unfold Service.registerLines
  rw [hEmpty, hEndpoints, List.flatMap_map]
  simp only [routeLines_bare]
  rfl

theorem apiUses_bare (params : Parameters) (api : ApiFile) : api.bare.uses params = api.uses params := by
  have hEndpoints : api.bare.endpoints = api.endpoints.map Endpoint.bare := by
    change (api.services.map Service.bare).flatMap _ = (api.services.flatMap _).map Endpoint.bare
    rw [List.flatMap_map, List.map_flatMap]
    rfl
  have hBinding : (api.endpoints.map Endpoint.bare).any Endpoint.usesBinding
      = api.endpoints.any Endpoint.usesBinding := by
    rw [List.any_map]
    rfl
  have hServices : api.bare.services.isEmpty = api.services.isEmpty := List.isEmpty_map
  unfold ApiFile.uses
  rw [hEndpoints, hBinding, hServices, List.isEmpty_map]
  rfl

/-- The lines of an API that are no remarks depend only on what it declares besides its comments. -/
theorem stripped_apiLines {a b : ApiFile} (h : a.bare = b.bare) (config : Config) :
    stripped (a.lines config) = stripped (b.lines config) := by
  have hLines : ∀ api : ApiFile, stripped (api.lines config) = stripped (api.bare.lines config) := by
    intro api
    have hService : ∀ service : Service,
        stripped (service.traitLines api.names ++ service.registerLines api.names config.errorCode)
          = stripped (service.bare.traitLines api.names
            ++ service.bare.registerLines api.names config.errorCode) := by
      intro service
      rw [stripped_append, stripped_append, stripped_trait, registerLines_bare]
    have hServices := stripped_flatMap_bare hService api.services
    unfold ApiFile.lines
    rw [apiUses_bare, stripped_append, hServices]
    simp only [stripped_append]
    rw [stripped_header]
    rfl
  rw [hLines, h, ← hLines]

end ProtoBind.Emit
