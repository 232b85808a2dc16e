import ProtoBind.Http.Request
import ProtoBind.Proofs.Silence

/-!
# Pools without comments

The rules that a request holds for its methods are found by way of a pool. Neither whether its files fit
together nor what a method's options hold depends on comments.
-/

set_option autoImplicit false

namespace ProtoBind.Pool

open Http Wire

def silent (pool : Pool) : Pool := { pool with files := pool.files.map FileDecl.silent }

theorem collect_silent {α : Type} (files : List FileDecl) (f : Nat → FileDecl → List α)
    (h : ∀ i file, f i file.silent = f i file) :
    collect (files.map FileDecl.silent) f = collect files f := by
  rw [collect, collect, mapIdx_map]
  simp only [h]

theorem messagesOf_silent (files : List FileDecl) :
    messagesOf (files.map FileDecl.silent) = messagesOf files := collect_silent _ _ fun _ _ => rfl

theorem enumsOf_silent (files : List FileDecl) :
    enumsOf (files.map FileDecl.silent) = enumsOf files := by
  rw [enumsOf, enumsOf, messagesOf_silent, collect_silent _ _ fun _ _ => rfl]

theorem extensionsOf_silent (files : List FileDecl) :
    extensionsOf (files.map FileDecl.silent) = extensionsOf files := by
  rw [extensionsOf, extensionsOf, messagesOf_silent, collect_silent _ _ fun _ _ => rfl]

theorem servicesOf_silent (files : List FileDecl) :
    servicesOf (files.map FileDecl.silent) = servicesOf files := collect_silent _ _ fun _ _ => rfl

theorem packagesOf_silent (files : List FileDecl) :
    packagesOf (files.map FileDecl.silent) = packagesOf files := collect_silent _ _ fun _ _ => rfl

theorem ofFiles_silent (files : List FileDecl) :
    ofFiles (files.map FileDecl.silent) = (ofFiles files).silent := by
  unfold ofFiles definitionsOf
  rw [messagesOf_silent, enumsOf_silent, extensionsOf_silent, servicesOf_silent, packagesOf_silent]
  rfl

variable (pool : Pool)

@[simp] theorem place?_silent (name : String) : pool.silent.place? name = pool.place? name :=
  List.findIdx?_map ..

theorem file?_silent (i : Nat) : pool.silent.files[i]? = (pool.files[i]?).map FileDecl.silent :=
  List.getElem?_map ..

@[simp] theorem importsOf_silent : pool.silent.importsOf = pool.importsOf := by
  funext file
  unfold importsOf
  rw [file?_silent, show pool.silent.place? = pool.place? from funext pool.place?_silent]
  cases pool.files[file]? <;> rfl

@[simp] theorem publicImportsOf_silent : pool.silent.publicImportsOf = pool.publicImportsOf := by
  funext file
  unfold publicImportsOf
  rw [file?_silent, show pool.silent.place? = pool.place? from funext pool.place?_silent]
  cases pool.files[file]? <;> rfl

@[simp] theorem visibleFrom_silent (file : Nat) :
    pool.silent.visibleFrom file = pool.visibleFrom file := by
  unfold visibleFrom
  rw [importsOf_silent, publicImportsOf_silent, silent, List.length_map]

@[simp] theorem isProto2_silent (file : Nat) : pool.silent.isProto2 file = pool.isProto2 file := by
  unfold isProto2
  rw [file?_silent]
  cases pool.files[file]? <;> rfl

theorem kind?_silent (visible : List Nat) (scope : String) (field : FieldDecl) :
    pool.silent.kind? visible scope field = pool.kind? visible scope field := rfl

@[simp] theorem wireField?_silent (file : Nat) (scope : String) (field : FieldDecl) :
    pool.silent.wireField? file scope field = pool.wireField? file scope field := by
  unfold wireField?
  simp only [visibleFrom_silent, isProto2_silent, kind?_silent]

theorem extensionsFor_silent (name : String) :
    pool.silent.extensionsFor name = pool.extensionsFor name := by
  unfold extensionsFor
  simp only [visibleFrom_silent]
  rfl

@[simp] theorem types_silent : pool.silent.types = pool.types := by
  funext name
  unfold types
  simp only [extensionsFor_silent, wireField?_silent]
  rfl

theorem options?_silent (type : String) (bytes : Bytes) :
    pool.silent.options? type bytes = pool.options? type bytes := by
  rw [options?, options?, types_silent]

theorem importsValid_silent (file : FileDecl) :
    pool.silent.importsValid file.silent = pool.importsValid file := by
  unfold importsValid
  simp only [place?_silent]
  rfl

theorem messageValid_silent : pool.silent.messageValid = pool.messageValid := by
  funext m
  unfold messageValid
  simp only [visibleFrom_silent, isProto2_silent, kind?_silent]

theorem enumValid_silent : pool.silent.enumValid = pool.enumValid := by
  funext e
  unfold enumValid
  simp only [isProto2_silent]

theorem extensionValid_silent : pool.silent.extensionValid = pool.extensionValid := by
  funext x
  unfold extensionValid
  simp only [visibleFrom_silent, kind?_silent]
  rfl

theorem serviceValid_silent : pool.silent.serviceValid = pool.serviceValid := by
  funext s
  unfold serviceValid
  simp only [visibleFrom_silent]
  rfl

theorem allOptions_silent : pool.silent.allOptions = pool.allOptions := by
  unfold allOptions
  rw [silent, List.map_map]
  rfl

theorem optionsValid_silent (type : String) (bytes : Bytes) :
    pool.silent.optionsValid type bytes = pool.optionsValid type bytes := by
  unfold optionsValid
  rw [options?_silent]
  rfl

theorem valid_silent : pool.silent.valid = pool.valid := by
  have hNames : pool.silent.files.map (·.name) = pool.files.map (·.name) := by
    rw [silent, List.map_map]
    rfl
  have hVersions : pool.silent.files.all versionValid = pool.files.all versionValid := by
    rw [silent, List.all_map]
    rfl
  have hImports : pool.silent.files.all pool.silent.importsValid = pool.files.all pool.importsValid := by
    rw [show pool.silent.files = pool.files.map FileDecl.silent from rfl, List.all_map]
    exact congrArg _ (funext fun file => importsValid_silent pool file)
  unfold valid
  rw [hNames, hVersions, hImports, messageValid_silent, enumValid_silent, extensionValid_silent,
    serviceValid_silent, allOptions_silent]
  simp only [optionsValid_silent]
  rfl

theorem link_silent (files : List FileDecl) :
    link (files.map FileDecl.silent) = (link files).map silent := by
  unfold link
  rw [ofFiles_silent]
  dsimp only
  rw [valid_silent]
  split <;> rfl

theorem ruleOf_silent (number : Nat) (scope : String) (method : MethodDecl) :
    pool.silent.ruleOf number scope method = pool.ruleOf number scope method := by
  unfold ruleOf ruleBytes?
  simp only [options?_silent, types_silent]

theorem rules_silent : pool.silent.rules = pool.rules := by
  unfold rules
  rw [show pool.silent.ruleExtension? = pool.ruleExtension? from rfl]
  cases pool.ruleExtension? with
  | none => rfl
  | some x =>
    dsimp only
    simp only [ruleOf_silent]
    rfl

/-- The rules of files, if the files fit together, do not depend on comments. -/
theorem linkedRules_silent (files : List FileDecl) :
    (link (files.map FileDecl.silent) >>= rules) = (link files >>= rules) := by
  rw [link_silent]
  cases link files with
  | error e => rfl
  | ok pool => exact rules_silent pool

end ProtoBind.Pool
