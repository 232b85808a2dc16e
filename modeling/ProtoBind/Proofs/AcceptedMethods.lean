import ProtoBind.Proofs.DistinctTypes
import ProtoBind.Proofs.NameBijection
import ProtoBind.Proofs.NamesInTurn
import ProtoBind.Proofs.References

/-!
# Methods that an API accepts

An API is made of all methods of all services of its schema file, or of none: a method without a route, or
with a type name that leads nowhere, ends the run, and the first such method decides with which error.
-/

set_option autoImplicit false

namespace ProtoBind

open Naming Http Emit

/-- The methods of a schema file with their services, in the order in which they are declared. -/
def FileDecl.methods (file : FileDecl) : List (ServiceDecl × MethodDecl) :=
  file.services.flatMap fun service => service.methods.map (service, ·)

def Http.Route.pattern (route : Route) : Pattern :=
  match route.verb with
  | .get => .get route.path
  | .post => .post route.path

theorem Http.Rule.route?_eq_some_iff {rule : Rule} {route : Route} :
    rule.route? = some route ↔ rule.pattern = some route.pattern := by
  obtain ⟨verb, path⟩ := route
  unfold route? Route.pattern
  cases verb <;> cases rule.pattern with
  | none => simp
  | some pattern => cases pattern <;> simp

namespace Emit.Scope

variable (scope : Scope) (rules : Rules)

def Mapped (service : ServiceDecl) (method : MethodDecl) : Prop :=
  ∃ rule path, rules.get? (methodName scope.file.decl.package service.name method.name) = some rule ∧
    (rule.pattern = some (.get path) ∨ rule.pattern = some (.post path))

def Known (typeName : String) : Prop :=
  typeName = ".google.protobuf.Empty" ∨ ∃ s, scope.index.get typeName = .ok s

/-- Nothing is wrong with a method. -/
structure Accepts (method : ServiceDecl × MethodDecl) : Prop where
  mapped : scope.Mapped rules method.1 method.2
  input : scope.Known method.2.inputType
  output : scope.Known method.2.outputType

/-- The first thing that is wrong with a method: its route, what it takes, or what it gives. -/
inductive Faults (method : ServiceDecl × MethodDecl) : Error → Prop where
  | unmapped (hMapped : ¬ scope.Mapped rules method.1 method.2) :
      Faults method (.httpMappingNotFound (methodName scope.file.decl.package method.1.name method.2.name))
  | input (hMapped : scope.Mapped rules method.1 method.2) (hInput : ¬ scope.Known method.2.inputType) :
      Faults method (.objectNotFound method.2.inputType)
  | output (hMapped : scope.Mapped rules method.1 method.2) (hInput : scope.Known method.2.inputType)
      (hOutput : ¬ scope.Known method.2.outputType) : Faults method (.objectNotFound method.2.outputType)

/-- An endpoint stands for a method: it has the route of the rule, what the method takes and gives, and the
directives in the comment on it. -/
structure Serves (service : ServiceDecl) (path : SourcePath) (method : MethodDecl) (e : Endpoint) : Prop where
  route : ∃ rule, rules.get? (methodName scope.file.decl.package service.name method.name) = some rule ∧
    rule.pattern = some e.route.pattern
  input : scope.payload method.inputType = .ok (e.input, e.binds)
  output : ∃ filled, scope.payload method.outputType = .ok (e.output, filled)
  directives : e.directives = .ofComment? (scope.file.comment? path)

/-- A service of an API stands for the `i`-th declared one: its endpoints for the methods, one by one, under names
that are given out in turn. -/
structure Offers (i : Nat) (decl : ServiceDecl) (s : Service) : Prop where
  name : s.name = pascal decl.name
  stem : s.stem = snake decl.name
  methods : List.Forall₂ (fun (method, j) e => scope.Serves rules decl ((SourcePath.service i).method j) method e)
    decl.methods.zipIdx s.endpoints
  names : InTurn "_" keywords (decl.methods.map fun method => snake method.name) (s.endpoints.map (·.name))

def fault? (service : ServiceDecl) (method : MethodDecl) : Option Error :=
  (failure? (scope.routeOf rules service method)).or
    ((failure? (scope.payload method.inputType)).or (failure? (scope.payload method.outputType)))

/-! ### One method -/

variable {scope rules} {service : ServiceDecl} {method : MethodDecl}

theorem routeOf_eq_ok_iff {rule : Rule} {route : Route} : scope.routeOf rules service method = .ok (rule, route) ↔
    rules.get? (methodName scope.file.decl.package service.name method.name) = some rule ∧
      rule.pattern = some route.pattern := by
  unfold routeOf
  dsimp only
  cases rules.get? (methodName scope.file.decl.package service.name method.name) with
  | none => simp
  | some found =>
    dsimp only
    rw [Option.some.injEq, ← Rule.route?_eq_some_iff]
    cases hRoute : found.route? with
    | none =>
      constructor
      · exact nofun
      · rintro ⟨rfl, h⟩
        rw [hRoute] at h
        cases h
    | some other =>
      constructor
      · intro h
        cases h
        exact ⟨rfl, hRoute⟩
      · rintro ⟨rfl, h⟩
        rw [hRoute] at h
        cases h
        rfl

theorem exists_routeOf_iff : (∃ found, scope.routeOf rules service method = .ok found) ↔
    scope.Mapped rules service method := by
  constructor
  · rintro ⟨⟨rule, verb, path⟩, h⟩
    obtain ⟨hRule, hPattern⟩ := routeOf_eq_ok_iff.mp h
    refine ⟨rule, path, hRule, ?_⟩
    cases verb with
    | get => exact .inl hPattern
    | post => exact .inr hPattern
  · rintro ⟨rule, path, hRule, hGet | hPost⟩
    · exact ⟨(rule, ⟨.get, path⟩), routeOf_eq_ok_iff.mpr ⟨hRule, hGet⟩⟩
    · exact ⟨(rule, ⟨.post, path⟩), routeOf_eq_ok_iff.mpr ⟨hRule, hPost⟩⟩

theorem routeOf_error {e : Error} (h : scope.routeOf rules service method = .error e) :
    e = .httpMappingNotFound (methodName scope.file.decl.package service.name method.name) := by
  unfold routeOf at h
  dsimp only at h
  split at h
  · exact (Except.error.inj h).symm
  · split at h
    · exact (Except.error.inj h).symm
    · cases h

theorem exists_payload_iff {typeName : String} :
    (∃ found, scope.payload typeName = .ok found) ↔ scope.Known typeName := by
  unfold payload Known
  split
  · rename_i hEmpty
    exact iff_of_true ⟨_, rfl⟩ (.inl hEmpty)
  · rename_i hOther
    constructor
    · rintro ⟨found, h⟩
      cases hGet : scope.index.get typeName with
      | error e =>
        rw [hGet] at h
        cases h
      | ok s => exact .inr ⟨s, rfl⟩
    · rintro (hEmpty | ⟨s, hGet⟩)
      · exact absurd hEmpty hOther
      · rw [hGet]
        cases s <;> exact ⟨_, rfl⟩

theorem payload_error {typeName : String} {e : Error} (h : scope.payload typeName = .error e) :
    e = .objectNotFound typeName := by
  unfold payload at h
  split at h
  · cases h
  · cases hGet : scope.index.get typeName with
    | error other =>
      rw [hGet] at h
      cases h
      exact NameIndex.get_error hGet
    | ok s =>
      rw [hGet] at h
      cases s <;> cases h

theorem fault?_eq_none_iff : scope.fault? rules service method = none ↔ scope.Accepts rules (service, method) := by
  simp only [fault?, Option.or_eq_none_iff, failure?_eq_none_iff, exists_routeOf_iff, exists_payload_iff]
  exact ⟨fun ⟨hMapped, hInput, hOutput⟩ => ⟨hMapped, hInput, hOutput⟩,
    fun h => ⟨h.mapped, h.input, h.output⟩⟩

theorem fault?_eq_some_iff {e : Error} :
    scope.fault? rules service method = some e ↔ scope.Faults rules (service, method) e := by
  have hRoute := @failure?_eq_some_iff_not _ _ _ _ e (@exists_routeOf_iff scope rules service method)
    fun _ => routeOf_error
  have hPayload : ∀ typeName, failure? (scope.payload typeName) = some e
      ↔ ¬ scope.Known typeName ∧ e = .objectNotFound typeName :=
    fun _ => failure?_eq_some_iff_not exists_payload_iff fun _ => payload_error
  simp only [fault?, Option.or_eq_some_iff, failure?_eq_none_iff, hRoute, hPayload, exists_routeOf_iff,
    exists_payload_iff]
  constructor
  · rintro (⟨hMapped, rfl⟩ | ⟨hMapped, ⟨hInput, rfl⟩ | ⟨hInput, hOutput, rfl⟩⟩)
    · exact .unmapped hMapped
    · exact .input hMapped hInput
    · exact .output hMapped hInput hOutput
  · rintro (hMapped | ⟨hMapped, hInput⟩ | ⟨hMapped, hInput, hOutput⟩)
    · exact .inl ⟨hMapped, rfl⟩
    · exact .inr ⟨hMapped, .inl ⟨hInput, rfl⟩⟩
    · exact .inr ⟨hMapped, .inr ⟨hInput, hOutput, rfl⟩⟩

theorem failure?_endpoint (path : SourcePath) (used : List String) :
    failure? (scope.endpoint rules service path used method) = scope.fault? rules service method := by
  unfold endpoint fault?
  refine failure?_bind fun found _ => ?_
  obtain ⟨rule, route⟩ := found
  refine failure?_bind fun input _ => ?_
  exact failure?_bind_ok

theorem serves_of_endpoint {path : SourcePath} {used : List String} {e : Endpoint}
    (h : scope.endpoint rules service path used method = .ok e) :
    scope.Serves rules service path method e ∧ LeastFree "_" (used ++ keywords) (snake method.name) e.name := by
  obtain ⟨⟨rule, route⟩, hRoute, h⟩ := bind_ok_iff.mp h
  obtain ⟨⟨input, binds⟩, hInput, h⟩ := bind_ok_iff.mp h
  obtain ⟨⟨output, filled⟩, hOutput, h⟩ := bind_ok_iff.mp h
  cases h
  exact ⟨⟨⟨rule, routeOf_eq_ok_iff.mp hRoute⟩, hInput, ⟨filled, hOutput⟩, rfl⟩,
    leastFree_withSuffix (by decide) _ _⟩

/-! ### All methods -/

theorem failure?_endpoints (path : SourcePath) (i : Nat) (used : List String) (methods : List MethodDecl) :
    failure? (scope.endpoints rules service path i used methods)
      = methods.findSome? (scope.fault? rules service) := by
  induction methods generalizing i used with
  | nil => rfl
  | cons method rest ih =>
    have hFirst : (method :: rest).findSome? (scope.fault? rules service)
        = (scope.fault? rules service method).or (rest.findSome? (scope.fault? rules service)) := by
      rw [List.findSome?_cons]
      cases scope.fault? rules service method <;> rfl
    rw [endpoints, hFirst, ← failure?_endpoint (path.method i) used]
    refine failure?_bind fun e _ => ?_
    rw [← ih (i + 1) (e.name :: used)]
    exact failure?_bind_ok

theorem failure?_services (i : Nat) (services : List ServiceDecl) : failure? (scope.services rules i services)
    = (services.flatMap fun service => service.methods.map (service, ·)).findSome?
      fun method => scope.fault? rules method.1 method.2 := by
  induction services generalizing i with
  | nil => rfl
  | cons service rest ih =>
    rw [Scope.services, List.flatMap_cons, List.findSome?_append, List.findSome?_map]
    refine (failure?_bind fun endpoints _ => ?_).trans
      (congrArg (Option.or · _) (failure?_endpoints (SourcePath.service i) 0 [] service.methods))
    rw [← ih (i + 1)]
    exact failure?_bind_ok

/-- The endpoints of a service stand for its methods one by one, under names that are given out in turn. -/
theorem serves_of_endpoints {path : SourcePath} {i : Nat} {used : List String} {methods : List MethodDecl}
    {endpoints : List Endpoint} (h : scope.endpoints rules service path i used methods = .ok endpoints) :
    List.Forall₂ (fun (method, j) e => scope.Serves rules service (path.method j) method e) (methods.zipIdx i)
      endpoints ∧
      InTurn "_" (used ++ keywords) (methods.map fun method => snake method.name) (endpoints.map (·.name)) := by
  induction methods generalizing i used endpoints with
  | nil =>
    cases h
    exact ⟨.nil, .nil⟩
  | cons method rest ih =>
    obtain ⟨e, hFirst, h⟩ := bind_ok_iff.mp h
    obtain ⟨others, hOthers, h⟩ := bind_ok_iff.mp h
    cases h
    obtain ⟨hServes, hName⟩ := serves_of_endpoint hFirst
    obtain ⟨hRest, hNames⟩ := ih hOthers
    exact ⟨.cons hServes hRest, .cons hName hNames⟩

theorem offers_of_services {i : Nat} {decls : List ServiceDecl} {services : List Service}
    (h : scope.services rules i decls = .ok services) :
    List.Forall₂ (fun (decl, i) s => scope.Offers rules i decl s) (decls.zipIdx i) services := by
  induction decls generalizing i services with
  | nil =>
    cases h
    exact .nil
  | cons decl rest ih =>
    obtain ⟨endpoints, hEndpoints, h⟩ := bind_ok_iff.mp h
    obtain ⟨others, hOthers, h⟩ := bind_ok_iff.mp h
    cases h
    obtain ⟨hServes, hNames⟩ := serves_of_endpoints hEndpoints
    exact .cons ⟨rfl, rfl, hServes, hNames⟩ (ih hOthers)

end Emit.Scope

namespace Emit.ApiFile

variable {scope : Scope} {rules : Rules}

theorem failure?_ofScope : failure? (ofScope scope rules)
    = scope.file.decl.methods.findSome? fun method => scope.fault? rules method.1 method.2 := by
  rw [FileDecl.methods, ← Scope.failure?_services 0, ofScope]
  cases scope.services rules 0 scope.file.decl.services <;> rfl

theorem offers_of_ofScope {api : ApiFile} (h : ofScope scope rules = .ok api) :
    List.Forall₂ (fun (decl, i) s => scope.Offers rules i decl s) scope.file.decl.services.zipIdx api.services := by
  unfold ofScope at h
  split at h
  · cases h
  · rename_i services hServices
    cases h
    exact Scope.offers_of_services hServices

/-- An API can be made exactly if all methods of all services are accepted, and then serves all of them. Otherwise
the error is the first thing that is wrong with the first method that is not accepted. -/
theorem ofScope_accepts (scope : Scope) (rules : Rules) :
    ((∃ api, ofScope scope rules = .ok api) ↔ ∀ method ∈ scope.file.decl.methods, scope.Accepts rules method) ∧
    (∀ e, ofScope scope rules = .error e ↔ ∃ before method after,
      scope.file.decl.methods = before ++ method :: after ∧ (∀ earlier ∈ before, scope.Accepts rules earlier) ∧
        scope.Faults rules method e) ∧
    ∀ api, ofScope scope rules = .ok api →
      List.Forall₂ (fun (decl, i) s => scope.Offers rules i decl s) scope.file.decl.services.zipIdx api.services := by
  refine ⟨?_, fun e => ?_, fun api => offers_of_ofScope⟩
  · rw [← failure?_eq_none_iff, failure?_ofScope, List.findSome?_eq_none_iff]
    exact forall₂_congr fun method _ => Scope.fault?_eq_none_iff
  · rw [← failure?_eq_some_iff, failure?_ofScope, List.findSome?_eq_some_iff]
    constructor
    · rintro ⟨before, method, after, hMethods, hFault, hBefore⟩
      exact ⟨before, method, after, hMethods, fun earlier hMem => Scope.fault?_eq_none_iff.mp (hBefore earlier hMem),
        Scope.fault?_eq_some_iff.mp hFault⟩
    · rintro ⟨before, method, after, hMethods, hBefore, hFault⟩
      exact ⟨before, method, after, hMethods, Scope.fault?_eq_some_iff.mpr hFault,
        fun earlier hMem => Scope.fault?_eq_none_iff.mpr (hBefore earlier hMem)⟩

/-- A file with a method that gives what is nowhere declared, before one without a rule. -/
def brokenMethods : FileDecl where
  name := "a.proto"
  package := "p"
  messages := [bareMessage "M" []]
  services := [
    { name := "S", methods := [{ name := "Get", inputType := ".google.protobuf.Empty", outputType := ".p.M" }] },
    { name := "T", methods := [{ name := "Put", inputType := ".p.M", outputType := ".p.N" }, { name := "Drop" }] }]

theorem ofScope_accepts_brokenMethods : ∃ index : NameIndex,
    NameIndex.build (singleFileScope brokenMethods).graph = .ok index ∧
      ofScope { singleFileScope brokenMethods with index, pass := .api }
        (.ofList [("p.S.Get", { pattern := some (.get "/m") }), ("p.T.Put", { pattern := some (.post "/m") })])
        = .error (.objectNotFound ".p.N") := by
  refine ⟨_, rfl, ((ofScope_accepts _ _).2.1 _).mpr ⟨[_], _, _, rfl, ?_, .output ?_ ?_ ?_⟩⟩
  · rw [List.forall_mem_singleton]
    exact ⟨⟨_, "/m", rfl, .inl rfl⟩, .inl rfl, .inr ⟨_, rfl⟩⟩
  · exact ⟨_, "/m", rfl, .inr rfl⟩
  · exact .inr ⟨_, rfl⟩
  · rintro (h | ⟨s, h⟩)
    · exact absurd h (by decide)
    · cases h

end Emit.ApiFile

end ProtoBind
