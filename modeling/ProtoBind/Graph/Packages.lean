import ProtoBind.Graph.Basic
import ProtoBind.Naming.Path
import ProtoBind.Settings

/-!
# Packages

The import path and the package name of every file. The files to generate must agree in both.
-/

set_option autoImplicit false

namespace ProtoBind

open Text Naming

/-- The import path of the well-known types, unless a parameter says otherwise. -/
def wellKnownImportPath : String := "router/wkt"

/-- What the names of the files of the well-known types begin with. -/
def wellKnownDirectory : String := "google/protobuf/"

/-- What a package option says: an import path, a package name, or both. -/
structure PackageOption where
  importPath : Option String := none
  name : Option String := none
  deriving DecidableEq, Repr

namespace PackageOption

/-- Reads `path;name`, a path whose last element is the name, or a name. -/
def parse (option : String) : PackageOption :=
  let cs := option.toList
  if cs = [] then {}
  else match splitOnce ';' cs with
    | some (path, name) =>
      { importPath := if path = [] then none else some (String.ofList path),
        name := some (moduleName (String.ofList name)) }
    | none =>
      match splitLast '/' cs with
      | some (_, name) =>
        { importPath := some option, name := some (moduleName (String.ofList name)) }
      | none => { name := some (moduleName option) }

end PackageOption

def FileNode.packageOption (file : FileNode) : PackageOption := .parse file.decl.goPackage

/-- The import path of a file: its own parameter, the well-known path, the parameter for files to
generate, the package option, or its directory, whichever comes first. -/
def FileNode.chooseImportPath (params : Parameters) (file : FileNode) : String :=
  match params.importMap.get? file.decl.name with
  | some path => path
  | none =>
    if file.decl.name.startsWith wellKnownDirectory then wellKnownImportPath
    else match params.importPath with
      | some path =>
        if file.generate then path else file.packageOption.importPath.getD (dirName file.decl.name)
      | none => file.packageOption.importPath.getD (dirName file.decl.name)

/-- The name that the first file with this import path gives its package in its option. -/
def optionNameOf? (files : List FileNode) (importPath : String) : Option String :=
  files.findSome? fun file => if file.importPath = importPath then file.packageOption.name else none

/-- The package name that the import path of the parameters suggests. -/
def Parameters.defaultName? (params : Parameters) : Option String :=
  match params.importPath with
  | none => none
  | some path => if baseName path = "" then none else some (moduleName (baseName path))

/-- The package name of a file among files that have their import paths: its own option, that of the
first file with its import path, the parameter for files to generate, its schema package, or its base
name, whichever comes first. -/
def FileNode.choosePackageName (params : Parameters) (files : List FileNode) (file : FileNode) :
    String :=
  match file.packageOption.name with
  | some name => name
  | none =>
    match optionNameOf? files file.importPath with
    | some name => name
    | none =>
      match params.defaultName?, file.generate with
      | some name, true => name
      | _, _ =>
        if file.decl.package ≠ "" then moduleName file.decl.package
        else moduleName (baseName file.decl.name)

namespace Graph

def withPackages (g : Graph) (params : Parameters) : Graph :=
  let files := g.files.map fun file => { file with importPath := file.chooseImportPath params }
  { g with files := files.map fun file =>
      { file with packageName := file.choosePackageName params files } }

/-- The error of a file that has another package than the first one. -/
def inconsistency? (first file : FileNode) : Option Error :=
  if first.importPath ≠ file.importPath then
    some (.inconsistentImportPaths first.importPath file.importPath)
  else if first.packageName ≠ file.packageName then
    some (.inconsistentPackageNames first.packageName file.packageName)
  else none

/-- Refuses files to generate of different packages; the first that differs from the first counts. -/
def checkConsistency (g : Graph) : Except Error Unit :=
  match g.generated with
  | [] => .ok ()
  | first :: rest =>
    match rest.findSome? (inconsistency? first) with
    | some e => .error e
    | none => .ok ()

/-- The graph with import paths and package names, if the files to generate agree in them. -/
def resolvePackages (g : Graph) (params : Parameters) : Except Error Graph :=
  let resolved := g.withPackages params
  match resolved.checkConsistency with
  | .ok () => .ok resolved
  | .error e => .error e

end Graph

end ProtoBind
