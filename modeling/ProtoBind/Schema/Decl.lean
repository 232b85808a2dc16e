import ProtoBind.Wire.Record

/-!
# Schema declarations

What a schema file declares, as a compiler front end hands it over: types, services, comments by
source path, and the options that matter here. Absent texts are empty, absent numbers zero.
-/

set_option autoImplicit false

namespace ProtoBind

inductive Label where
  | optional
  | required
  | repeated
  deriving DecidableEq, Repr, Inhabited

/-- The declared type of a field; for the last three the field names the type. -/
inductive FieldType where
  | double
  | float
  | int64
  | uint64
  | int32
  | fixed64
  | fixed32
  | bool
  | string
  | bytes
  | uint32
  | sfixed32
  | sfixed64
  | sint32
  | sint64
  | group
  | message
  | enum
  deriving DecidableEq, Repr, Inhabited

namespace Label

/-- The label with this number; an unknown number means `optional`. -/
def ofNumber (n : Int) : Label :=
  if n = 2 then .required else if n = 3 then .repeated else .optional

def number : Label → Nat
  | .optional => 1
  | .required => 2
  | .repeated => 3

theorem ofNumber_number (l : Label) : ofNumber l.number = l := by cases l <;> rfl

end Label

namespace FieldType

/-- The types in the order of their numbers, which begin at one. -/
def all : List FieldType :=
  [.double, .float, .int64, .uint64, .int32, .fixed64, .fixed32, .bool, .string, .group, .message,
    .bytes, .uint32, .enum, .sfixed32, .sfixed64, .sint32, .sint64]

/-- The type with this number; an unknown number means `double`. -/
def ofNumber (n : Int) : FieldType :=
  if 1 ≤ n then (all[(n - 1).toNat]?).getD .double else .double

def number (t : FieldType) : Nat := all.idxOf t + 1

theorem ofNumber_number (t : FieldType) : ofNumber t.number = t := by cases t <;> decide

end FieldType

structure FieldDecl where
  name : String := ""
  number : Int := 0
  label : Label := .optional
  type : FieldType := .double
  typeName : String := ""
  extendee : String := ""
  oneofIndex : Option Int := none
  jsonName : Option String := none
  /-- Whether the field is optional by its own oneof. -/
  proto3Optional : Bool := false
  deprecated : Bool := false
  packed : Option Bool := none
  options : Wire.Bytes := []
  deriving DecidableEq

structure EnumValueDecl where
  name : String := ""
  number : Int := 0
  deprecated : Bool := false
  options : Wire.Bytes := []
  deriving DecidableEq

structure EnumDecl where
  name : String := ""
  values : List EnumValueDecl := []
  deprecated : Bool := false
  allowAlias : Bool := false
  reservedRanges : List (Int × Int) := []
  options : Wire.Bytes := []
  deriving DecidableEq

structure OneofDecl where
  name : String := ""
  options : Wire.Bytes := []
  deriving DecidableEq

inductive MessageDecl where
  | mk (name : String) (fields : List FieldDecl) (nested : List MessageDecl) (enums : List EnumDecl)
    (oneofs : List OneofDecl) (extensions : List FieldDecl) (extensionRanges : List (Int × Int))
    (reservedRanges : List (Int × Int)) (mapEntry deprecated : Bool) (options : Wire.Bytes)

namespace MessageDecl

instance : Inhabited MessageDecl := ⟨.mk "" [] [] [] [] [] [] [] false false []⟩

mutual

def decEq : (a b : MessageDecl) → Decidable (a = b)
  | .mk name fields nested enums oneofs extensions ranges reserved entry deprecated options,
    .mk name' fields' nested' enums' oneofs' extensions' ranges' reserved' entry' deprecated' options' =>
    have := decEqList nested nested'
    decidable_of_iff
      (name = name' ∧ fields = fields' ∧ nested = nested' ∧ enums = enums' ∧ oneofs = oneofs'
        ∧ extensions = extensions' ∧ ranges = ranges' ∧ reserved = reserved' ∧ entry = entry'
        ∧ deprecated = deprecated' ∧ options = options')
      (MessageDecl.mk.injEq .. ▸ Iff.rfl)

def decEqList : (a b : List MessageDecl) → Decidable (a = b)
  | [], [] => isTrue rfl
  | [], _ :: _ => isFalse (List.cons_ne_nil _ _).symm
  | _ :: _, [] => isFalse (List.cons_ne_nil _ _)
  | a :: as, b :: bs =>
    have := decEq a b
    have := decEqList as bs
    decidable_of_iff (a = b ∧ as = bs) List.cons_eq_cons.symm

end

instance : DecidableEq MessageDecl := decEq

def name : MessageDecl → String
  | .mk name .. => name

def fields : MessageDecl → List FieldDecl
  | .mk _ fields .. => fields

def nested : MessageDecl → List MessageDecl
  | .mk _ _ nested .. => nested

def enums : MessageDecl → List EnumDecl
  | .mk _ _ _ enums .. => enums

def oneofs : MessageDecl → List OneofDecl
  | .mk _ _ _ _ oneofs .. => oneofs

def extensions : MessageDecl → List FieldDecl
  | .mk _ _ _ _ _ extensions .. => extensions

/-- The numbers left to extensions: each pair is a first number and the one behind the last. -/
def extensionRanges : MessageDecl → List (Int × Int)
  | .mk _ _ _ _ _ _ ranges .. => ranges

def reservedRanges : MessageDecl → List (Int × Int)
  | .mk _ _ _ _ _ _ _ ranges .. => ranges

def isMapEntry : MessageDecl → Bool
  | .mk _ _ _ _ _ _ _ _ mapEntry _ _ => mapEntry

def isDeprecated : MessageDecl → Bool
  | .mk _ _ _ _ _ _ _ _ _ deprecated _ => deprecated

def options : MessageDecl → Wire.Bytes
  | .mk _ _ _ _ _ _ _ _ _ _ options => options

end MessageDecl

structure MethodDecl where
  name : String := ""
  inputType : String := ""
  outputType : String := ""
  deprecated : Bool := false
  options : Wire.Bytes := []
  deriving DecidableEq

structure ServiceDecl where
  name : String := ""
  methods : List MethodDecl := []
  deprecated : Bool := false
  options : Wire.Bytes := []
  deriving DecidableEq

/-- A comment and the place it belongs to: a path of field numbers and indices. -/
structure Location where
  path : List Int := []
  leading : Option String := none
  deriving DecidableEq

structure FileDecl where
  name : String := ""
  package : String := ""
  /-- The language version that the file names, if it names one. -/
  version : Option String := none
  /-- The names of the files it imports. -/
  imports : List String := []
  /-- Which of the imports are passed on to importers. -/
  publicImports : List Int := []
  weakImports : List Int := []
  messages : List MessageDecl := []
  enums : List EnumDecl := []
  services : List ServiceDecl := []
  extensions : List FieldDecl := []
  goPackage : String := ""
  deprecated : Bool := false
  locations : List Location := []
  options : Wire.Bytes := []
  deriving DecidableEq

namespace FileDecl

/-- Whether the file is written in the third version of the schema language. -/
def isProto3 (file : FileDecl) : Bool := file.version == some "proto3"

end FileDecl

/-- The full name of a type: a dot, the package with a dot behind it, and the dotted path. -/
def fullName (package : String) (typeName : List String) : String :=
  "." ++ (if package = "" then "" else package ++ ".") ++ ".".intercalate typeName

structure Request where
  filesToGenerate : List String := []
  parameter : Option String := none
  files : List FileDecl := []
  deriving DecidableEq

end ProtoBind
