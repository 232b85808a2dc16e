import ProtoBind.Emit.Api
import ProtoBind.Proofs.AllOrNothing
import ProtoBind.Proofs.DeclaredNames
import ProtoBind.Proofs.DistinctTypes
import ProtoBind.Proofs.NameForms

/-!
# Services that share a name

The names of the traits and of the functions that an API declares, read off its lines, and when two
services of a schema file get the same one. The two cases forget different things: the case of types the
underscores, the case of functions where the capitals of a run stand.
-/

set_option autoImplicit false

namespace ProtoBind.Emit

open Naming Text Source

def traitHead : List Char := "pub trait ".toList

def functionHead : List Char := "pub fn ".toList

/-! ### Items of a service -/

theorem traitNames_traitLines (names : LocalNames) {s : Service}
    (hName : ∀ c ∈ s.name.toList, isIdentifierRest c = true) :
    declaredNames traitHead (s.traitLines names) = [s.name ++ "Handler"] := by
  have hTrait : declaredName? traitHead (code ("pub trait " ++ s.name ++ "Handler: Send + Sync + 'static \x7b"))
      = some (s.name ++ "Handler") := by
    have hSplit : "Handler: Send + Sync + 'static \x7b" = "Handler" ++ ": Send + Sync + 'static \x7b" := rfl
    rw [hSplit, ← String.append_assoc, @String.append_assoc "pub trait "]
    refine declaredName?_code ?_ (by decide)
    intro c hMem
    rw [String.toList_append, List.mem_append] at hMem
    have hBack : ∀ c ∈ "Handler".toList, isIdentifierRest c = true := forall_mem_of_all (by decide)
    exact hMem.elim (hName c) (hBack c)
  unfold Service.traitLines
  rw [declaredNames_append, declaredNames_append, declaredNames_documentation, declaredNames_block,
    declaredNames_cons_of_some hTrait, declaredNames_cons_of_none (declaredName?_of_differs (by decide))]
  rfl

theorem functionNames_traitLines (names : LocalNames) (s : Service) :
    declaredNames functionHead (s.traitLines names) = [] := by
  have hTrait : Differs functionHead "pub trait " := by decide
  unfold Service.traitLines
  rw [declaredNames_append, declaredNames_append, declaredNames_documentation,
    declaredNames_block_of_differs ((hTrait.append _).append _) (by decide)]
  rfl

theorem declaredNames_registerLines {head : List Char} (hClose : Differs head "\x7d") (names : LocalNames)
    (errorCode : Int) (s : Service) :
    ∃ rest, declaredNames head (s.registerLines names errorCode)
      = declaredNames head [code (s.registerHead ++ rest)] := by
  unfold Service.registerLines
  rw [List.cons_append, declaredNames_cons_of_none rfl, declaredNames_append]
  split
  · exact ⟨"(_g: &mut router::Engine, _h: H) \x7b\x7d", List.append_nil _⟩
  · refine ⟨"(g: &mut router::Engine, h: H) \x7b", ?_⟩
    rw [declaredNames_block, declaredNames_cons_of_none (declaredName?_of_differs hClose)]
    exact (List.append_nil _).trans (List.append_nil _)

theorem traitNames_registerLines (names : LocalNames) (errorCode : Int) (s : Service) :
    declaredNames traitHead (s.registerLines names errorCode) = [] := by
  have hFunction : Differs traitHead "pub fn register_" := by decide
  obtain ⟨rest, hLines⟩ := @declaredNames_registerLines traitHead (by decide) names errorCode s
  rw [hLines, declaredNames_cons_of_none (declaredName?_of_differs ?_)]
  · rfl
  · exact (((((hFunction.append _).append _).append _).append _).append _)

theorem functionNames_registerLines (names : LocalNames) (errorCode : Int) {s : Service}
    (hStem : ∀ c ∈ s.stem.toList, isIdentifierRest c = true) :
    declaredNames functionHead (s.registerLines names errorCode) = ["register_" ++ s.stem ++ "_handler"] := by
  obtain ⟨rest, hLines⟩ := @declaredNames_registerLines functionHead (by decide) names errorCode s
  have hSplit : s.registerHead ++ rest
      = "pub fn " ++ ("register_" ++ s.stem ++ "_handler") ++ ("<H: " ++ s.name ++ "Handler>" ++ rest) := by
    have hFront : "pub fn register_" = "pub fn " ++ "register_" := rfl
    have hBack : "_handler<H: " = "_handler" ++ "<H: " := rfl
    unfold Service.registerHead
    rw [hFront, hBack]
    simp only [String.append_assoc]
  have hFunction : declaredName? functionHead (code (s.registerHead ++ rest))
      = some ("register_" ++ s.stem ++ "_handler") := by
    rw [hSplit]
    refine declaredName?_code ?_ ?_
    · have hRegister : ∀ c ∈ "register_".toList, isIdentifierRest c = true := forall_mem_of_all (by decide)
      have hHandler : ∀ c ∈ "_handler".toList, isIdentifierRest c = true := forall_mem_of_all (by decide)
      intro c hMem
      rw [String.toList_append, String.toList_append, List.mem_append, List.mem_append] at hMem
      rcases hMem with (hFront | hMem) | hBack
      · exact hRegister c hFront
      · exact hStem c hMem
      · exact hHandler c hBack
    · have hOpen : "<H: ".toList = ['<', 'H', ':', ' '] := rfl
      simp only [String.toList_append, List.append_assoc, hOpen, List.cons_append, List.head?_cons]
      decide
  rw [hLines, declaredNames_cons_of_some hFunction]
  rfl

/-! ### Items of an API -/

theorem declaredNames_apiUses {head : List Char} (hUse : Differs head "use ") (params : Parameters)
    (api : ApiFile) : declaredNames head (api.uses params) = [] := by
  have hFuture : Differs head "use std::future::Future;" := hUse.append "std::future::Future;"
  have hArc : Differs head "use std::sync::Arc;" := hUse.append "std::sync::Arc;"
  unfold ApiFile.uses
  simp only [declaredNames_append, declaredNames_packageUses hUse]
  have hRouter : declaredNames head (if api.services.isEmpty then [] else [code ("use " ++ params.routerPath ++ ";")])
      = [] := by
    split
    · rfl
    · exact declaredNames_cons_of_none (declaredName?_of_differs ((hUse.append _).append _)) []
  have hBinding : declaredNames head (if api.endpoints.any Endpoint.usesBinding then
      [code ("use " ++ params.routerPath ++ "::binding;")] else []) = [] := by
    split
    · exact declaredNames_cons_of_none (declaredName?_of_differs ((hUse.append _).append _)) []
    · rfl
  have hHandlers : declaredNames head (if api.endpoints.isEmpty then []
      else [code "use std::future::Future;", code "use std::sync::Arc;"]) = [] := by
    split
    · rfl
    · rw [declaredNames_cons_of_none (declaredName?_of_differs hFuture),
        declaredNames_cons_of_none (declaredName?_of_differs hArc)]
      rfl
  rw [hRouter, hBinding, hHandlers]
  rfl

theorem declaredNames_apiLines {head : List Char} (hUse : Differs head "use ") (config : Config) (api : ApiFile) :
    declaredNames head (api.lines config) = api.services.flatMap fun service =>
      declaredNames head (service.traitLines api.names)
        ++ declaredNames head (service.registerLines api.names config.errorCode) := by
  unfold ApiFile.lines
  simp only [declaredNames_append, declaredNames_header, declaredNames_apiUses hUse, declaredNames_flatMap]
  rfl

/-- The traits that an API declares are those of its services. -/
theorem traitNames_lines (config : Config) {api : ApiFile}
    (h : ∀ s ∈ api.services, ∀ c ∈ s.name.toList, isIdentifierRest c = true) :
    declaredNames traitHead (api.lines config) = api.services.map fun s => s.name ++ "Handler" := by
  rw [declaredNames_apiLines (by decide), List.map_eq_flatMap]
  refine List.flatMap_congr fun s hS => ?_
  rw [traitNames_traitLines _ (h s hS), traitNames_registerLines]
  rfl

/-- The functions that an API declares are those that register the routes of its services. -/
theorem functionNames_lines (config : Config) {api : ApiFile}
    (h : ∀ s ∈ api.services, ∀ c ∈ s.stem.toList, isIdentifierRest c = true) :
    declaredNames functionHead (api.lines config)
      = api.services.map fun s => "register_" ++ s.stem ++ "_handler" := by
  rw [declaredNames_apiLines (by decide), List.map_eq_flatMap]
  refine List.flatMap_congr fun s hS => ?_
  rw [functionNames_traitLines, functionNames_registerLines _ _ (h s hS)]
  rfl

/-! ### Shared names -/

section

variable {scope : Scope} {rules : Http.Rules} {api : ApiFile}

theorem names_of_ofScope (hApi : ApiFile.ofScope scope rules = .ok api) :
    api.services.map (fun service => (service.name, service.stem))
      = scope.file.decl.services.map fun decl => (pascal decl.name, snake decl.name) := by
  unfold ApiFile.ofScope at hApi
  split at hApi
  · cases hApi
  · rename_i services hServices
    cases hApi
    exact names_of_services hServices

theorem exists_decl_of_mem (hApi : ApiFile.ofScope scope rules = .ok api) {s : Service} (hS : s ∈ api.services) :
    ∃ decl ∈ scope.file.decl.services, s.name = pascal decl.name ∧ s.stem = snake decl.name := by
  have hPair : (s.name, s.stem) ∈ api.services.map fun service => (service.name, service.stem) :=
    List.mem_map_of_mem hS
  rw [names_of_ofScope hApi] at hPair
  obtain ⟨decl, hDecl, hSame⟩ := List.mem_map.mp hPair
  rw [Prod.mk.injEq] at hSame
  exact ⟨decl, hDecl, hSame.1.symm, hSame.2.symm⟩

theorem nodup_names_iff (front back : String) (names : List String) :
    (names.map fun name => front ++ name ++ back).Nodup ↔ names.Nodup := by
  refine List.nodup_map_iff ?_
  intro a b h
  have hChars := congrArg String.toList h
  simp only [String.toList_append] at hChars
  exact String.toList_inj.mp (List.append_cancel_left (List.append_cancel_right hChars))

variable (config : Config) (hApi : ApiFile.ofScope scope rules = .ok api)
  (hNames : ∀ service ∈ scope.file.decl.services, isSchemaName service.name = true)
include hApi hNames

theorem nodup_traitNames_iff : (declaredNames traitHead (api.lines config)).Nodup
    ↔ (scope.file.decl.services.map fun service => spelling service.name).Nodup := by
  have hChars : ∀ s ∈ api.services, ∀ c ∈ s.name.toList, isIdentifierRest c = true := by
    intro s hS c hMem
    obtain ⟨decl, hDecl, hName, -⟩ := exists_decl_of_mem hApi hS
    rw [hName, pascal_toList] at hMem
    exact isIdentifierRest_of_isNameChar
      (isNameChar_of_isAlphanum (isAlphanum_of_mem_spelling (hNames decl hDecl) hMem))
  have hSpelled : (api.services.map (·.name)).map String.toList
      = scope.file.decl.services.map fun service => spelling service.name := by
    have hFirst := congrArg (List.map fun pair : String × String => pair.1.toList) (names_of_ofScope hApi)
    simp only [List.map_map, Function.comp_def, pascal_toList] at hFirst
    rw [List.map_map]
    exact hFirst
  have hTraits := nodup_names_iff "" "Handler" (api.services.map (·.name))
  rw [List.map_map] at hTraits
  simp only [Function.comp_def, String.empty_append] at hTraits
  rw [traitNames_lines config hChars, hTraits, ← hSpelled]
  exact (List.nodup_map_iff fun a b h => String.toList_inj.mp h).symm

theorem nodup_functionNames_iff : (declaredNames functionHead (api.lines config)).Nodup
    ↔ (scope.file.decl.services.map fun service => snake service.name).Nodup := by
  have hChars : ∀ s ∈ api.services, ∀ c ∈ s.stem.toList, isIdentifierRest c = true := by
    intro s hS c hMem
    obtain ⟨decl, hDecl, -, hStem⟩ := exists_decl_of_mem hApi hS
    rw [hStem] at hMem
    exact isIdentifierRest_of_isNameChar (isNameChar_of_mem (isSchemaName_snake (hNames decl hDecl)) hMem)
  have hStems : api.services.map (·.stem) = scope.file.decl.services.map fun decl => snake decl.name := by
    have hSecond := congrArg (List.map Prod.snd) (names_of_ofScope hApi)
    rwa [List.map_map, List.map_map] at hSecond
  have hFunctions := nodup_names_iff "register_" "_handler" (api.services.map (·.stem))
  rw [List.map_map, hStems] at hFunctions
  rw [functionNames_lines config hChars]
  exact hFunctions

/-- The API of a file whose services have schema names declares two traits under one name exactly if the
names of two services consist of the same capitalized words, and two functions under one name exactly if
the names are the same in the case of functions. -/
theorem api_names_nodup_iff :
    ((declaredNames traitHead (api.lines config)).Nodup
        ↔ (scope.file.decl.services.map fun service => spelling service.name).Nodup) ∧
      ((declaredNames functionHead (api.lines config)).Nodup
        ↔ (scope.file.decl.services.map fun service => snake service.name).Nodup) :=
  ⟨nodup_traitNames_iff config hApi hNames, nodup_functionNames_iff config hApi hNames⟩

end

def twinHandlers : FileDecl where
  name := "a.proto"
  services := [{ name := "UserAdmin" }, { name := "user_admin" }]

/-- Different services of one file whose traits have one name, and whose functions have one name. -/
theorem api_names_twinHandlers :
    (twinHandlers.services.map (·.name)).Nodup ∧
      ∃ api, ApiFile.ofScope { singleFileScope twinHandlers with pass := .api } {} = .ok api ∧
        ¬ (declaredNames traitHead (api.lines {})).Nodup ∧ ¬ (declaredNames functionHead (api.lines {})).Nodup := by
  obtain ⟨api, hApi⟩ : ∃ api, ApiFile.ofScope { singleFileScope twinHandlers with pass := .api } {}
      = .ok api := ⟨_, rfl⟩
  have hNames : ∀ service ∈ twinHandlers.services, isSchemaName service.name = true := by decide
  obtain ⟨hTraits, hFunctions⟩ := api_names_nodup_iff {} hApi hNames
  refine ⟨by decide, api, hApi, ?_, ?_⟩
  · rw [hTraits]
    decide
  · rw [hFunctions]
    decide

end ProtoBind.Emit
