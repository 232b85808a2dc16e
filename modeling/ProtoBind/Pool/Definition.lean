import ProtoBind.Schema.Decl
import ProtoBind.Text.Blank

/-!
# What schema files define

The messages, enums, services and extensions of the files of a request at all depths, each with the
scope that declares it, and every full name that they define. Full names have no leading dot here.
-/

set_option autoImplicit false

namespace ProtoBind.Pool

def scopedName (scope name : String) : String := if scope = "" then name else scope ++ "." ++ name

/-- A declaration in a file, given by its place in the request, and the scope that it stands in. -/
structure Scoped (α : Type) where
  file : Nat
  scope : String
  decl : α

inductive DefinitionKind where
  | package
  | message
  | field
  | oneof
  | enum
  | value
  | service
  | method
  | extension
  deriving DecidableEq, Repr

structure Definition where
  file : Nat
  name : String
  kind : DefinitionKind
  deriving DecidableEq, Repr

mutual

def messageTree (file : Nat) (scope : String) : MessageDecl → List (Scoped MessageDecl)
  | .mk name fields nested enums oneofs extensions extensionRanges reservedRanges mapEntry deprecated
      options =>
    ⟨file, scope, .mk name fields nested enums oneofs extensions extensionRanges reservedRanges mapEntry
      deprecated options⟩ :: messageForest file (scopedName scope name) nested

def messageForest (file : Nat) (scope : String) : List MessageDecl → List (Scoped MessageDecl)
  | [] => []
  | message :: rest => messageTree file scope message ++ messageForest file scope rest

end

def Scoped.messageName (m : Scoped MessageDecl) : String := scopedName m.scope m.decl.name

def scopedAll {α : Type} (file : Nat) (scope : String) (decls : List α) : List (Scoped α) :=
  decls.map fun decl => ⟨file, scope, decl⟩

def collect {α : Type} (files : List FileDecl) (f : Nat → FileDecl → List α) : List α :=
  (files.mapIdx f).flatten

def messagesOf (files : List FileDecl) : List (Scoped MessageDecl) :=
  collect files fun i file => messageForest i file.package file.messages

def enumsOf (files : List FileDecl) : List (Scoped EnumDecl) :=
  collect files (fun i file => scopedAll i file.package file.enums)
    ++ (messagesOf files).flatMap fun m => scopedAll m.file m.messageName m.decl.enums

def extensionsOf (files : List FileDecl) : List (Scoped FieldDecl) :=
  collect files (fun i file => scopedAll i file.package file.extensions)
    ++ (messagesOf files).flatMap fun m => scopedAll m.file m.messageName m.decl.extensions

def servicesOf (files : List FileDecl) : List (Scoped ServiceDecl) :=
  collect files fun i file => scopedAll i file.package file.services

/-- The names that a message defines: its own, and those of its fields and oneofs. -/
def messageDefinitions (m : Scoped MessageDecl) : List Definition :=
  ⟨m.file, m.messageName, .message⟩
    :: (m.decl.fields.map fun f => ⟨m.file, scopedName m.messageName f.name, .field⟩)
    ++ m.decl.oneofs.map fun o => ⟨m.file, scopedName m.messageName o.name, .oneof⟩

/-- The names that an enum defines: its own, and beside it those of its values. -/
def enumDefinitions (e : Scoped EnumDecl) : List Definition :=
  ⟨e.file, scopedName e.scope e.decl.name, .enum⟩
    :: e.decl.values.map fun v => ⟨e.file, scopedName e.scope v.name, .value⟩

def extensionDefinition (x : Scoped FieldDecl) : Definition :=
  ⟨x.file, scopedName x.scope x.decl.name, .extension⟩

/-- The names that a service defines: its own, and those of its methods. -/
def serviceDefinitions (s : Scoped ServiceDecl) : List Definition :=
  let name := scopedName s.scope s.decl.name
  ⟨s.file, name, .service⟩ :: s.decl.methods.map fun m => ⟨s.file, scopedName name m.name, .method⟩

def definitionsOf (files : List FileDecl) : List Definition :=
  (messagesOf files).flatMap messageDefinitions ++ (enumsOf files).flatMap enumDefinitions
    ++ (extensionsOf files).map extensionDefinition ++ (servicesOf files).flatMap serviceDefinitions

/-- A scope and the scopes around it, from the inside out; the last one has no name. -/
def enclosingScopes (scope : String) : List String :=
  let parts := (Text.splitOn '.' scope.toList).map String.ofList
  (List.range (parts.length + 1)).reverse.map fun n => ".".intercalate (parts.take n)

/-- The packages of all files, with the packages that these lie in. -/
def packagesOf (files : List FileDecl) : List Definition :=
  collect files fun i file =>
    (enclosingScopes file.package).filterMap fun name =>
      if name = "" then none else some ⟨i, name, .package⟩

end ProtoBind.Pool
