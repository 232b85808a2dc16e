import ProtoBind.Pool.Definition

/-!
# Descriptor pools

The files of a request seen as one whole. A file sees itself, the files that it imports, and those that
these pass on; `Pool.resolve` finds what a name means in a scope of a file.
-/

set_option autoImplicit false

namespace ProtoBind

open Pool

structure Pool where
  files : List FileDecl
  messages : List (Scoped MessageDecl)
  enums : List (Scoped EnumDecl)
  extensions : List (Scoped FieldDecl)
  services : List (Scoped ServiceDecl)
  definitions : List Definition
  packages : List Definition

namespace Pool

def ofFiles (files : List FileDecl) : Pool where
  files := files
  messages := messagesOf files
  enums := enumsOf files
  extensions := extensionsOf files
  services := servicesOf files
  definitions := definitionsOf files
  packages := packagesOf files

def place? (pool : Pool) (name : String) : Option Nat := pool.files.findIdx? (·.name == name)

def importsOf (pool : Pool) (file : Nat) : List Nat :=
  match pool.files[file]? with
  | some decl => decl.imports.filterMap pool.place?
  | none => []

def publicImportsOf (pool : Pool) (file : Nat) : List Nat :=
  match pool.files[file]? with
  | some decl =>
    decl.publicImports.filterMap fun i => if 0 ≤ i then (decl.imports[i.toNat]?).bind pool.place? else none
  | none => []

/-- Everything in `remaining` that `next` leads to from `pending`. Each step takes what it finds out of
`remaining`, so circles end. -/
def reach (next : Nat → List Nat) (remaining pending : List Nat) : List Nat :=
  match _found : pending.find? remaining.contains with
  | none => []
  | some place => place :: reach next (remaining.erase place) (next place ++ pending)
termination_by remaining.length
decreasing_by
  have member : place ∈ remaining := List.contains_iff_mem.1 (List.find?_some _found)
  have shorter := List.length_erase_of_mem member
  have positive := List.length_pos_of_mem member
  omega

def visibleFrom (pool : Pool) (file : Nat) : List Nat :=
  file :: reach pool.publicImportsOf (List.range pool.files.length) (pool.importsOf file)

/-- Whether a name with a full stop behind it can begin the name of a definition. -/
def isScope (pool : Pool) (name : String) : Bool :=
  pool.packages.any (·.name == name)
    || pool.definitions.any fun d =>
      d.name == name && (d.kind == .message || d.kind == .enum || d.kind == .service)

/-- The full name, if it is that of a definition of the kind in one of the visible files. -/
def find? (pool : Pool) (visible : List Nat) (kind : DefinitionKind) (name : String) : Option String :=
  if pool.definitions.any fun d => d.name == name && d.kind == kind && visible.contains d.file
  then some name else none

/-- The full name of the definition of a kind that a name means. With a leading dot the name is full;
without one, the innermost scope around that has its first part decides. -/
def resolve (pool : Pool) (visible : List Nat) (kind : DefinitionKind) (scope name : String) :
    Option String :=
  match name.toList with
  | '.' :: full => pool.find? visible kind (String.ofList full)
  | chars =>
    match Text.splitOn '.' chars with
    | first :: _ :: _ =>
      ((enclosingScopes scope).find? fun s => pool.isScope (scopedName s (String.ofList first))).bind fun s =>
        pool.find? visible kind (scopedName s name)
    | _ => (enclosingScopes scope).findSome? fun s => pool.find? visible kind (scopedName s name)

def message? (pool : Pool) (name : String) : Option (Scoped MessageDecl) :=
  pool.messages.find? (·.messageName == name)

/-- Whether a file is written in the second version of the schema language. -/
def isProto2 (pool : Pool) (file : Nat) : Bool :=
  match pool.files[file]? with
  | some decl => decl.version == none || decl.version == some "proto2"
  | none => true

end Pool

end ProtoBind
