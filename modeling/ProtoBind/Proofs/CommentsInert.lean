import ProtoBind.Proofs.DirectiveTokens
import ProtoBind.Proofs.SettledRuns
import ProtoBind.Proofs.SilentApi
import ProtoBind.Proofs.SilentPool

/-!
# Comments do not influence code

Two requests that differ in nothing but comments fail alike or print the same code for every file, as
long as the directives in these comments ask for the same where something is asked of them.
-/

set_option autoImplicit false

namespace ProtoBind

open Emit

namespace Directives

theorem get?_insertAll (t : Table String) (entries : List (String × String)) {key : String}
    {p : String → Bool} (hKey : p key = true) :
    (t.insertAll (entries.filter fun entry => p entry.1)).get? key = (t.insertAll entries).get? key := by
  have hFold : ∀ s t : Table String, s.get? key = t.get? key →
      (s.insertAll (entries.filter fun entry => p entry.1)).get? key
        = (t.insertAll entries).get? key := by
    induction entries with
    | nil => exact fun s t h => h
    | cons entry rest ih =>
      intro s t h
      cases hEntry : p entry.1 with
      | true =>
        rw [List.filter_cons, if_pos hEntry]
        refine ih _ _ ?_
        rw [Table.get?_insert, Table.get?_insert, h]
      | false =>
        rw [List.filter_cons, hEntry]
        refine ih _ _ ?_
        have hOther : key ≠ entry.1 := by
          rintro rfl
          rw [hKey] at hEntry
          cases hEntry
        rw [Table.get?_insert, if_neg hOther, h]
  exact hFold t t rfl

/-- Entries with unknown keys ask for nothing. -/
theorem settings_filter (entries : List (String × String)) :
    (ofTable (.ofList (entries.filter fun entry => knownKeys.contains entry.1))).settings
      = (ofTable (.ofList entries)).settings :=
  settings_congr fun _ hKey => get?_insertAll .empty entries (List.elem_iff.mpr hKey)

end Directives

structure SameButComments (x y : Request) : Prop where
  files : x.files.map FileDecl.silent = y.files.map FileDecl.silent
  filesToGenerate : x.filesToGenerate = y.filesToGenerate

structure SameProject (p q : Project) : Prop where
  graph : p.graph.silent = q.graph.silent
  index : p.index = q.index
  rules : p.rules = q.rules
  config : p.config = q.config

theorem project_alike {x y : Request} (h : SameButComments x y) (config : Config) :
    Alike SameProject (Project.ofRequest x config) (Project.ofRequest y config) := by
  have hPrepare : Alike (fun a b => a.1.silent = b.1.silent ∧ a.2 = b.2)
      (Graph.prepare x.files x.filesToGenerate config.params)
      (Graph.prepare y.files y.filesToGenerate config.params) := by
    have hEq := Graph.prepare_silent x.files x.filesToGenerate config.params
    rw [h.files, h.filesToGenerate, Graph.prepare_silent] at hEq
    rw [h.filesToGenerate]
    generalize Graph.prepare x.files y.filesToGenerate config.params = a at hEq ⊢
    generalize Graph.prepare y.files y.filesToGenerate config.params = b at hEq ⊢
    cases a with
    | error e =>
      cases b with
      | error e' =>
        cases hEq
        exact .error e
      | ok b => cases hEq
    | ok a =>
      cases b with
      | error e' => cases hEq
      | ok b =>
        have hPair := Prod.mk.inj (Except.ok.inj hEq)
        exact .ok ⟨hPair.1.symm, hPair.2.symm⟩
  have hRules : (Pool.link x.files >>= Pool.rules) = (Pool.link y.files >>= Pool.rules) := by
    rw [← Pool.linkedRules_silent x.files, h.files, Pool.linkedRules_silent]
  unfold Project.ofRequest
  refine Alike.bind hPrepare ?_
  intro a b hSame
  obtain ⟨g, index⟩ := a
  obtain ⟨k, index'⟩ := b
  obtain ⟨hGraph, rfl⟩ := hSame
  rw [hRules]
  refine Alike.bind (Alike.of_eq rfl) ?_
  rintro rules _ rfl
  exact .ok ⟨hGraph, rfl, rfl, rfl⟩

/-- The code that a run prints for a file: its lines but for comments, or the error. -/
def Project.modelCode (project : Project) (place : Nat) : Except Error (List (List Char)) :=
  (project.model place).map fun model => codeLines (project.modelText model)

def Project.apiCode (project : Project) (place : Nat) : Except Error (List (List Char)) :=
  (project.api place).map fun api => codeLines (project.apiText api)

theorem map_eq_of_alike {α β γ : Type} {R : α → β → Prop} {f : α → γ} {g : β → γ}
    (h : ∀ a b, R a b → f a = g b) {x : Except Error α} {y : Except Error β} (hRun : Alike R x y) :
    x.map f = y.map g := by
  cases hRun with
  | error e => rfl
  | ok hResult => exact congrArg Except.ok (h _ _ hResult)

section

variable {p q : Project} (hSame : SameProject p q)
include hSame

theorem scope_congr (place : Nat) (pass : Pass) :
    (p.scope place pass).silent = (q.scope place pass).silent := by
  simp only [Project.scope, Scope.silent, hSame.graph, hSame.index]

theorem modelCode_congr {place : Nat}
    (hAgree : FieldsAgree (p.scope place .model) (q.scope place .model)) :
    p.modelCode place = q.modelCode place := by
  refine map_eq_of_alike ?_ (ofScope_alike (scope_congr hSame place .model) hAgree)
  intro a b hBare
  rw [Project.modelText, Project.modelText, hSame.config]
  exact codeLines_congr (stripped_modelLines hBare _)

theorem apiCode_congr {place : Nat}
    (hAgree : MethodsAgree (p.scope place .api) (q.scope place .api) p.rules) :
    p.apiCode place = q.apiCode place := by
  rw [Project.apiCode, Project.apiCode, Project.api, Project.api, ← hSame.rules]
  refine map_eq_of_alike ?_ (apiOfScope_alike (scope_congr hSame place .api) hAgree)
  intro a b hBare
  rw [Project.apiText, Project.apiText, hSame.config]
  exact codeLines_congr (stripped_apiLines hBare _)

end

/-- Requests that differ in nothing but comments fail alike before emission, or each of their files
fails alike or is printed with the same code; unknown keys of directives ask for nothing. -/
theorem comments_inert (config : Config) {a b : Wire.Bytes} {x y : Request}
    (hA : Request.decode a = .ok x) (hB : Request.decode b = .ok y) (hSame : SameButComments x y) :
    Alike (fun p q => p.graph.toGenerate = q.graph.toGenerate ∧ ∀ place,
        (FieldsAgree (p.scope place .model) (q.scope place .model) →
          p.modelCode place = q.modelCode place) ∧
        (MethodsAgree (p.scope place .api) (q.scope place .api) p.rules →
          p.apiCode place = q.apiCode place))
      (Project.ofBytes a config) (Project.ofBytes b config) ∧
    ∀ entries : List (String × String),
      (Directives.ofTable (.ofList (entries.filter fun entry =>
        Directives.knownKeys.contains entry.1))).settings
        = (Directives.ofTable (.ofList entries)).settings := by
  refine ⟨?_, Directives.settings_filter⟩
  rw [Project.ofBytes_eq, Project.ofBytes_eq, hA, hB]
  refine Alike.imp ?_ (project_alike hSame config)
  intro p q hProject
  have hPlaces : p.graph.silent.toGenerate = q.graph.silent.toGenerate :=
    congrArg Graph.toGenerate hProject.graph
  exact ⟨hPlaces, fun place => ⟨modelCode_congr hProject, apiCode_congr hProject⟩⟩

/-- A file with a field and a method that have these comments, behind files that say what the rule of a method
is. -/
def taggedRequest (fieldComment methodComment : String) : Request where
  filesToGenerate := ["a"]
  files := [
    { name := "d", package := "google.protobuf",
      messages := [.mk "MethodOptions" [] [] [] [] [] [(1000, 536870912)] [] false false []] },
    { name := "h", package := "google.api", imports := ["d"],
      messages := [
        .mk "HttpRule" [{ name := "get", number := 2, type := .string }] [] [] [] [] [] [] false false []],
      extensions := [
        { name := "http", number := 72295728, type := .message, typeName := ".google.api.HttpRule",
          extendee := ".google.protobuf.MethodOptions" }] },
    { name := "a", imports := ["h"],
      messages := [.mk "M" [{ name := "x", number := 1, type := .int32 }] [] [] [] [] [] [] false false []],
      services := [
        { name := "S",
          methods := [
            { name := "Do", inputType := ".M", outputType := ".M",
              options := Wire.encodeDelimited 72295728 (Schema.textField 2 "/x") }] }],
      locations := [⟨[4, 0, 2, 0], some fieldComment⟩, ⟨[6, 0, 2, 0], some methodComment⟩] }]

/-- The directives of this request and the next ask for the same in other words. The binding of the method is
asked for in one of them only, where no body is bound. -/
def plainTags : Request :=
  taggedRequest "x\n*/ @tag omitempty:false" "y @tag middleware:auth bindcheck:false"

def otherTags : Request :=
  taggedRequest "@tag omitempty:no" "struct Z; @tag bindcheck:FALSE color:red middleware:auth binding:form"

def Project.modelLines (project : Project) (place : Nat) : List String :=
  (project.model place).toOption.elim [] fun model => (model.lines project.config.params).map Line.text

def Project.apiLines (project : Project) (place : Nat) : List String :=
  (project.api place).toOption.elim [] fun api => (api.lines project.config).map Line.text

/-- Whether the lines of the tagged file are those that its declarations give around these comments. -/
def Project.printsAround (project : Project) (fieldDocs methodDocs : List String) : Bool :=
  project.modelLines 2 ==
      ["//! Code generated by protoc-gen-rain. DO NOT EDIT.", "//! source: a", "",
        "use serde::\x7bDeserialize, Serialize\x7d;", "",
        "#[derive(Clone, Debug, Default, PartialEq, Serialize, Deserialize)]", "#[serde(default)]",
        "pub struct M \x7b"] ++ fieldDocs
      ++ ["    #[serde(rename = \"x\")]", "    pub x: Option<i32>,", "\x7d", ""] &&
    ("pub trait SHandler: Send + Sync + 'static \x7b" :: methodDocs ++ ["    fn do_("]).isPrefixOf
      ((project.apiLines 2).drop 7) &&
    (project.apiLines 2).contains "        match g.middlewares(&[\"auth\"]) \x7b" &&
    (project.apiLines 2).contains "                        let _ = ctx.bind_query(&mut input);"

theorem comments_inert_taggedRequest : ∃ p q,
    Project.ofBytes plainTags.encode {} = .ok p ∧ Project.ofBytes otherTags.encode {} = .ok q ∧
    FieldsAgree (p.scope 2 .model) (q.scope 2 .model) ∧
    MethodsAgree (p.scope 2 .api) (q.scope 2 .api) p.rules ∧
    p.modelCode 2 = q.modelCode 2 ∧ p.apiCode 2 = q.apiCode 2 ∧
    p.printsAround ["    /// x", "    /// */ @tag omitempty:false"]
      ["    /// y @tag middleware:auth bindcheck:false"] = true ∧
    q.printsAround ["    /// @tag omitempty:no"]
      ["    /// struct Z; @tag bindcheck:FALSE color:red middleware:auth binding:form"] = true := by
  have hPlain : Request.decode plainTags.encode = .ok plainTags := by decide +kernel
  have hOther : Request.decode otherTags.encode = .ok otherTags := by decide +kernel
  have hBoth : (Project.ofRequest plainTags {}).toOption.any (fun p =>
      (Project.ofRequest otherTags {}).toOption.any fun q =>
        decide (FieldsAgree (p.scope 2 .model) (q.scope 2 .model)) &&
          decide (MethodsAgree (p.scope 2 .api) (q.scope 2 .api) p.rules) &&
          p.printsAround ["    /// x", "    /// */ @tag omitempty:false"]
            ["    /// y @tag middleware:auth bindcheck:false"] &&
          q.printsAround ["    /// @tag omitempty:no"]
            ["    /// struct Z; @tag bindcheck:FALSE color:red middleware:auth binding:form"]) = true := by
    decide +kernel
  obtain ⟨p, hP, hRest⟩ := exists_project hPlain hBoth
  obtain ⟨q, hQ, hHolds⟩ := exists_project hOther hRest
  simp only [Bool.and_eq_true, decide_eq_true_eq] at hHolds
  obtain ⟨⟨⟨hFields, hMethods⟩, hPlainLines⟩, hOtherLines⟩ := hHolds
  have hAlike := (comments_inert {} hPlain hOther ⟨rfl, rfl⟩).1
  rw [hP, hQ] at hAlike
  cases hAlike with
  | ok hCodes =>
    obtain ⟨hModel, hApi⟩ := hCodes.2 2
    exact ⟨p, q, hP, hQ, hFields, hMethods, hModel hFields, hApi hMethods, hPlainLines, hOtherLines⟩

end ProtoBind
