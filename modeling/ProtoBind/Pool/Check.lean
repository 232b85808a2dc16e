import ProtoBind.Error
import ProtoBind.Pool.Options

/-!
# The rules of a pool

A request is read only if its files fit together: names are unique, what is named is found, numbers are
legal, and all options can be read. `Pool.link` builds the pool of files that do.
-/

set_option autoImplicit false

namespace ProtoBind.Pool

def isIndex (i : Int) (length : Nat) : Bool := 0 ≤ i && i < length

/-- Whether the imports of a file are there, and its public and weak ones among them. -/
def importsValid (pool : Pool) (file : FileDecl) : Bool :=
  file.imports.all (fun name => (pool.place? name).isSome)
    && (file.publicImports ++ file.weakImports).all fun i => isIndex i file.imports.length

/-- Whether a file names a version of the schema language that there is. -/
def versionValid (file : FileDecl) : Bool :=
  file.version == none || file.version == some "proto2" || file.version == some "proto3"

/-- Whether every full name is defined once, packages aside, and no definition is named as a package. -/
def namesValid (pool : Pool) : Bool :=
  let names := pool.definitions.map (·.name)
  let packages := pool.packages.map (·.name)
  decide names.Nodup && names.all fun name => !packages.contains name

/-- Whether a number lies in a range that is given by its first number and the one behind its last. -/
def inRange (n : Int) (range : Int × Int) : Bool := range.1 ≤ n && n < range.2

def fieldNumberValid (n : Int) : Bool := inRange n (1, 0x20000000) && !inRange n (19000, 20000)

/-- A field name in lower camel case: underscores go, and the letter behind some is made a capital. -/
def lowerCamel : Bool → List Char → List Char
  | _, [] => []
  | _, '_' :: rest => lowerCamel true rest
  | raised, c :: rest => (if raised then c.toUpper else c) :: lowerCamel false rest

/-- The key of a field in JSON. -/
def jsonKey (field : FieldDecl) : String :=
  field.jsonName.getD (String.ofList (lowerCamel false field.name.toList))

/-- A field name without its underscores and without the difference between small and capital letters. -/
def foldedName (field : FieldDecl) : List Char :=
  (field.name.toList.filter (· != '_')).map Char.toLower

/-- Whether the fields of a message have legal, different numbers, different keys, oneofs that are there,
and types that are found. -/
def messageValid (pool : Pool) (m : Scoped MessageDecl) : Bool :=
  let fields := m.decl.fields
  let numbers := fields.map (·.number)
  let visible := pool.visibleFrom m.file
  numbers.all fieldNumberValid && decide numbers.Nodup
    && numbers.all (fun n => !(m.decl.reservedRanges ++ m.decl.extensionRanges).any (inRange n))
    && decide (fields.map jsonKey).Nodup
    && (pool.isProto2 m.file || decide (fields.map foldedName).Nodup)
    && fields.all fun field =>
      (field.oneofIndex.all fun i => isIndex i m.decl.oneofs.length)
        && (pool.kind? visible m.messageName field).isSome

def enumValid (pool : Pool) (e : Scoped EnumDecl) : Bool :=
  let numbers := e.decl.values.map (·.number)
  !numbers.isEmpty
    && (pool.isProto2 e.file || numbers.head? == some 0)
    && (e.decl.allowAlias || decide numbers.Nodup)
    && numbers.all fun n => !e.decl.reservedRanges.any (inRange n)

/-- Whether an extension has a type that is found and a number that the message it extends leaves to
extensions. -/
def extensionValid (pool : Pool) (x : Scoped FieldDecl) : Bool :=
  let visible := pool.visibleFrom x.file
  match (pool.resolve visible .message x.scope x.decl.extendee).bind pool.message? with
  | none => false
  | some extended =>
    extended.decl.extensionRanges.any (inRange x.decl.number)
      && (pool.kind? visible x.scope x.decl).isSome

def serviceValid (pool : Pool) (s : Scoped ServiceDecl) : Bool :=
  let visible := pool.visibleFrom s.file
  let scope := scopedName s.scope s.decl.name
  s.decl.methods.all fun method =>
    (pool.resolve visible .message scope method.inputType).isSome
      && (pool.resolve visible .message scope method.outputType).isSome

def allOptions (pool : Pool) : List (String × Wire.Bytes) :=
  (pool.files.map fun file => ("google.protobuf.FileOptions", file.options))
    ++ (pool.messages.flatMap fun m =>
      ("google.protobuf.MessageOptions", m.decl.options)
        :: (m.decl.fields.map fun f => ("google.protobuf.FieldOptions", f.options))
        ++ m.decl.oneofs.map fun o => ("google.protobuf.OneofOptions", o.options))
    ++ (pool.extensions.map fun x => ("google.protobuf.FieldOptions", x.decl.options))
    ++ (pool.enums.flatMap fun e =>
      ("google.protobuf.EnumOptions", e.decl.options)
        :: e.decl.values.map fun v => ("google.protobuf.EnumValueOptions", v.options))
    ++ pool.services.flatMap fun s =>
      ("google.protobuf.ServiceOptions", s.decl.options)
        :: s.decl.methods.map fun m => ("google.protobuf.MethodOptions", m.options)

def valid (pool : Pool) : Bool :=
  decide (pool.files.map (·.name)).Nodup
    && pool.files.all versionValid
    && pool.namesValid
    && pool.files.all pool.importsValid
    && pool.messages.all pool.messageValid
    && pool.enums.all pool.enumValid
    && pool.extensions.all pool.extensionValid
    && pool.services.all pool.serviceValid
    && pool.allOptions.all fun (type, bytes) => pool.optionsValid type bytes

def link (files : List FileDecl) : Except Error Pool :=
  let pool := ofFiles files
  if pool.valid then .ok pool else .error .decodeDescriptors

end ProtoBind.Pool
