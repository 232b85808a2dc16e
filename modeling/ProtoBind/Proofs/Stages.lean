import Mathlib.Data.List.Forall2
import ProtoBind.Project
import ProtoBind.Proofs.BuiltGraph

/-!
# What the stages before emission keep

Packages, constants and public imports are filled in file by file. No stage changes what a file
declares, which files there are, or which of them are to be generated.
-/

set_option autoImplicit false

namespace ProtoBind

theorem forall₂_of_mapM {α β : Type} {f : α → Except Error β} {as : List α} {bs : List β}
    (h : as.mapM f = .ok bs) : List.Forall₂ (fun a b => f a = .ok b) as bs := by
  induction as generalizing bs with
  | nil =>
    cases h
    exact .nil
  | cons a as ih =>
    rw [List.mapM_cons] at h
    cases hHead : f a with
    | error e => rw [hHead] at h; cases h
    | ok b =>
      rw [hHead] at h
      cases hTail : as.mapM f with
      | error e => rw [hTail] at h; cases h
      | ok rest =>
        rw [hTail] at h
        cases h
        exact .cons hHead (ih hTail)

theorem bind_ok_iff {α β : Type} {x : Except Error α} {f : α → Except Error β} {b : β} :
    x >>= f = .ok b ↔ ∃ a, x = .ok a ∧ f a = .ok b := by
  cases x with
  | error e => exact ⟨nofun, fun ⟨_, h, _⟩ => nomatch h⟩
  | ok a => exact ⟨fun h => ⟨a, rfl, h⟩, fun ⟨_, rfl, h⟩ => h⟩

theorem mapM_ok_iff {α β : Type} {f : α → Except Error β} {as : List α} {bs : List β} :
    as.mapM f = .ok bs ↔ List.Forall₂ (fun a b => f a = .ok b) as bs := by
  constructor
  · exact forall₂_of_mapM
  · intro h
    induction h with
    | nil => rfl
    | cons hHead _ ih =>
      rw [List.mapM_cons]
      exact bind_ok_iff.mpr ⟨_, hHead, bind_ok_iff.mpr ⟨_, ih, rfl⟩⟩

theorem exists_mapM_ok {α β : Type} {f : α → Except Error β} {as : List α}
    (h : ∀ a ∈ as, ∃ b, f a = .ok b) : ∃ bs, as.mapM f = .ok bs := by
  induction as with
  | nil => exact ⟨[], rfl⟩
  | cons a rest ih =>
    obtain ⟨b, hHead⟩ := h a List.mem_cons_self
    obtain ⟨bs, hRest⟩ := ih fun other hOther => h other (List.mem_cons_of_mem _ hOther)
    exact ⟨b :: bs, mapM_ok_iff.mpr (.cons hHead (mapM_ok_iff.mp hRest))⟩

theorem exists_of_forall₂_right {α β : Type} {R : α → β → Prop} {as : List α} {bs : List β}
    (h : List.Forall₂ R as bs) : ∀ b ∈ bs, ∃ a ∈ as, R a b := by
  induction h with
  | nil => exact fun b hB => absurd hB List.not_mem_nil
  | @cons a b as bs hHead _ ih =>
    intro other hOther
    rcases List.mem_cons.mp hOther with rfl | hOther
    · exact ⟨a, List.mem_cons_self, hHead⟩
    · obtain ⟨found, hFound, hSame⟩ := ih other hOther
      exact ⟨found, List.mem_cons_of_mem _ hFound, hSame⟩

theorem forall₂_filterMap {α β : Type} {f : α → Option β} {as : List α}
    (h : ∀ a ∈ as, (f a).isSome) : List.Forall₂ (fun a b => f a = some b) as (as.filterMap f) := by
  induction as with
  | nil => exact .nil
  | cons a as ih =>
    obtain ⟨b, hHead⟩ := Option.isSome_iff_exists.mp (h a List.mem_cons_self)
    rw [List.filterMap_cons_some hHead]
    exact .cons hHead (ih fun other hOther => h other (List.mem_cons_of_mem _ hOther))

theorem forall₂_trans {α β γ : Type} {R : α → β → Prop} {S : β → γ → Prop} {T : α → γ → Prop}
    (h : ∀ a b c, R a b → S b c → T a c) {as : List α} {bs : List β} {cs : List γ}
    (hFirst : List.Forall₂ R as bs) (hSecond : List.Forall₂ S bs cs) : List.Forall₂ T as cs := by
  induction hFirst generalizing cs with
  | nil =>
    cases hSecond
    exact .nil
  | cons hHead _ ih =>
    cases hSecond with
    | cons hNext hRest => exact .cons (h _ _ _ hHead hNext) (ih hRest)

/-! ### Errors of runs -/

/-- The error that a run ends with. -/
def failure? {α : Type} : Except Error α → Option Error
  | .ok _ => none
  | .error e => some e

section

variable {α β : Type} {x : Except Error α}

theorem failure?_eq_some_iff {e : Error} : failure? x = some e ↔ x = .error e := by
  cases x <;> simp [failure?]

theorem failure?_eq_none_iff : failure? x = none ↔ ∃ a, x = .ok a := by
  cases x <;> simp [failure?]

/-- A run with one error of its own ends with that one if it does not succeed. -/
theorem failure?_eq_some_iff_not {P : Prop} {own e : Error} (hOk : (∃ a, x = .ok a) ↔ P)
    (hError : ∀ e, x = .error e → e = own) : failure? x = some e ↔ ¬ P ∧ e = own := by
  rw [failure?_eq_some_iff, ← hOk]
  constructor
  · rintro rfl
    exact ⟨nofun, hError e rfl⟩
  · rintro ⟨hNone, rfl⟩
    cases x with
    | ok a => exact absurd ⟨a, rfl⟩ hNone
    | error other => rw [hError other rfl]

/-- A run in two steps ends with the error of the first one, or else with that of the second one. -/
theorem failure?_bind {f : α → Except Error β} {later : Option Error} (h : ∀ a, x = .ok a → failure? (f a) = later) :
    failure? (x >>= f) = (failure? x).or later := by
  cases x with
  | error e => rfl
  | ok a => exact (h a rfl).trans (Option.none_or).symm

theorem failure?_bind_ok {f : α → β} : failure? (x >>= fun a => .ok (f a)) = failure? x := by
  cases x <;> rfl

end

theorem failure?_mapM {α β : Type} (f : α → Except Error β) (as : List α) :
    failure? (as.mapM f) = as.findSome? fun a => failure? (f a) := by
  induction as with
  | nil => rfl
  | cons a rest ih =>
    rw [List.mapM_cons, List.findSome?_cons, ← ih]
    cases f a with
    | error e => rfl
    | ok b => exact failure?_bind_ok

theorem modify_length_append {α : Type} (f : α → α) (before after : List α) (a : α) :
    (before ++ a :: after).modify before.length f = before ++ f a :: after := by
  simp [List.modify_eq_take_cons_drop]

/-! ### Files -/

namespace Graph

def decls (g : Graph) : List FileDecl := g.files.map (·.decl)

theorem decl_of_file? {g : Graph} {place : Nat} {file : FileNode} (h : g.file? place = some file) :
    g.decls[place]? = some file.decl := by
  rw [file?] at h
  simp [decls, h]

theorem fileByName?_eq (g : Graph) (name : String) :
    g.fileByName? name =
      ((List.range g.decls.length).filter fun i => (g.decls[i]?).any (·.name == name)).getLast? := by
  simp only [fileByName?, decls, file?, List.length_map, List.getElem?_map, Option.any_map]

theorem fileByName?_congr {g k : Graph} (h : g.decls = k.decls) : g.fileByName? = k.fileByName? := by
  funext name
  rw [fileByName?_eq, fileByName?_eq, h]

theorem file?_of_fileByName? {g : Graph} {name : String} {place : Nat}
    (h : g.fileByName? name = some place) : ∃ file, g.file? place = some file ∧ file.decl.name = name := by
  have hMem := List.mem_of_getLast? h
  obtain ⟨_, hAny⟩ := List.mem_filter.mp hMem
  obtain ⟨file, hFile, hName⟩ := (Option.any_eq_true _ _).mp hAny
  exact ⟨file, hFile, by simpa using hName⟩

structure SameFiles (g k : Graph) : Prop where
  decls : g.decls = k.decls
  toGenerate : g.toGenerate = k.toGenerate

theorem SameFiles.trans {g k l : Graph} (h : SameFiles g k) (h' : SameFiles k l) : SameFiles g l :=
  ⟨h.decls.trans h'.decls, h.toGenerate.trans h'.toGenerate⟩

theorem sameFiles_withPackages (g : Graph) (params : Parameters) :
    SameFiles g (g.withPackages params) := by
  constructor
  · simp only [Graph.decls, withPackages, List.map_map]
    rfl
  · rfl

theorem eq_withPackages_of_resolvePackages {g k : Graph} {params : Parameters}
    (h : g.resolvePackages params = .ok k) : k = g.withPackages params := by
  unfold resolvePackages at h
  dsimp only at h
  split at h
  · exact (Except.ok.inj h).symm
  · cases h

theorem sameFiles_withConstants (g : Graph) : SameFiles g g.withConstants := by
  constructor
  · simp only [Graph.decls, withConstants, List.map_map]
    rfl
  · rfl

theorem decl_exportFiles (g : Graph) (files : List FileNode) :
    (g.exportFiles files).1.map (·.decl) = files.map (·.decl) := by
  induction files with
  | nil => rfl
  | cons file rest ih =>
    unfold exportFiles
    split
    · rfl
    · simp only [List.map_cons, ih]

theorem sameFiles_exportPublicImports {g k : Graph} (h : g.exportPublicImports = .ok k) :
    SameFiles g k := by
  unfold exportPublicImports at h
  split at h
  · rename_i reached hReached
    cases h
    obtain rfl : g.exportReachable.1 = k := congrArg Prod.fst hReached
    exact ⟨(decl_exportFiles g g.files).symm, rfl⟩
  · cases h

theorem ofFiles_spec {files : List FileDecl} {names : List String} {g : Graph}
    (h : ofFiles files names = .ok g) :
    g.decls = files ∧
      List.Forall₂ (fun name place => g.fileByName? name = some place) names g.toGenerate := by
  rw [ofFiles_eq] at h
  split at h
  · cases h
  · dsimp only at h
    split at h
    · cases h
    · rename_i hFound
      cases h
      refine ⟨by simp [Graph.decls, Function.comp_def, FileDecl.node], ?_⟩
      apply forall₂_filterMap
      intro name hName
      have hPlace := List.find?_eq_none.mp hFound name hName
      rw [Option.isNone_iff_eq_none, ← ne_eq, ← Option.isSome_iff_ne_none] at hPlace
      exact hPlace

/-- The graph that emission looks at holds the files of the request, and the names to generate lead to
its places to generate one by one. -/
theorem prepare_spec {files : List FileDecl} {names : List String} {params : Parameters} {g : Graph}
    {index : NameIndex} (h : prepare files names params = .ok (g, index)) :
    g.decls = files ∧
      List.Forall₂ (fun name place => g.fileByName? name = some place) names g.toGenerate := by
  unfold prepare at h
  cases hFiles : ofFiles files names with
  | error e => rw [hFiles] at h; cases h
  | ok first =>
    rw [hFiles] at h
    cases hPackages : first.resolvePackages params with
    | error e => simp only [bind, Except.bind, hPackages] at h; cases h
    | ok resolved =>
      cases hIndex : NameIndex.build resolved.withConstants with
      | error e => simp only [bind, Except.bind, hPackages, hIndex] at h; cases h
      | ok found =>
        cases hExport : resolved.withConstants.exportPublicImports with
        | error e => simp only [bind, Except.bind, hPackages, hIndex, hExport] at h; cases h
        | ok last =>
          simp only [bind, Except.bind, hPackages, hIndex, hExport] at h
          cases h
          obtain ⟨hDecls, hPlaces⟩ := ofFiles_spec hFiles
          have hSame : SameFiles first g :=
            (eq_withPackages_of_resolvePackages hPackages ▸ sameFiles_withPackages first params).trans
              ((sameFiles_withConstants resolved).trans (sameFiles_exportPublicImports hExport))
          rw [← hSame.decls, ← hSame.toGenerate, ← fileByName?_congr hSame.decls]
          exact ⟨hDecls, hPlaces⟩

end Graph

end ProtoBind
