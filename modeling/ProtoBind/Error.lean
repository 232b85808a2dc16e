import ProtoBind.Text.Number

/-!
# Errors

Every cause for which a run ends without output, its message, and the classes it belongs to.
-/

set_option autoImplicit false

namespace ProtoBind

inductive FileFault where
  | notFound
  | notDirectory
  | isDirectory
  | nameTooLong
  | invalidText
  | invalidName
  /-- Any other fault, in the words of the system. -/
  | other (words : String)
  deriving DecidableEq, Repr

def FileFault.message : FileFault → String
  | .notFound => "No such file or directory (os error 2)"
  | .notDirectory => "Not a directory (os error 20)"
  | .isDirectory => "Is a directory (os error 21)"
  | .nameTooLong => "File name too long (os error 36)"
  | .invalidText => "stream did not contain valid UTF-8"
  | .invalidName => "file name contained an unexpected NUL byte"
  | .other words => words

inductive Error where
  | decodeRequest
  | decodeDescriptors
  | noFilesToGenerate
  | invalidPathType (value : String)
  | invalidErrorCode (value : String) (fault : Text.IntegerFault)
  | inconsistentImportPaths (first second : String)
  | inconsistentPackageNames (first second : String)
  | duplicateName (name : String)
  | objectNotFound (name : String)
  | fileNotFound (name : String)
  | dependencyNotFound (name file : String)
  | httpMappingNotFound (method : String)
  | badSource (name listing : String)
  | reformat (name : String)
  | manifestAccess (path : String) (fault : FileFault)
  | manifestContent (path : String)
  deriving DecidableEq, Repr

inductive ErrorClass where
  | input
  | consistency
  | resolution
  | mapping
  | emission
  | manifest
  deriving DecidableEq, Repr

namespace Error

def message : Error → String
  | .decodeRequest => "failed to decode code generator request"
  | .decodeDescriptors => "failed to build descriptor pool from request"
  | .noFilesToGenerate => "no files to generate"
  | .invalidPathType value => "unknown path type '" ++ value ++ "'"
  | .invalidErrorCode value _ => "invalid GEN_ERROR_CODE '" ++ value ++ "'"
  | .inconsistentImportPaths first second =>
    "inconsistent package import paths: " ++ first ++ ", " ++ second
  | .inconsistentPackageNames first second =>
    "inconsistent package names: " ++ first ++ ", " ++ second
  | .duplicateName name => "type name '" ++ name ++ "' is defined twice"
  | .objectNotFound name => "can't find object with type " ++ name
  | .fileNotFound name => "could not find file named " ++ name
  | .dependencyNotFound name file => "could not find dependency " ++ name ++ " of " ++ file
  | .httpMappingNotFound method => "http mapping not found for method " ++ method
  | .badSource name _ => "bad Rust source code was generated for " ++ name
  | .reformat name => "generated Rust source code for " ++ name ++ " could not be reformatted"
  | .manifestAccess path _ => "error accessing handler manifest '" ++ path ++ "'"
  | .manifestContent path => "handler manifest '" ++ path ++ "' content error"

/-- Advice, where there is some. For a source that cannot be read it is the numbered source. -/
def help? : Error → Option String
  | .invalidPathType _ => some "want 'import' or 'source_relative'"
  | .invalidErrorCode _ _ =>
    some "the error code must be an integer, for example GEN_ERROR_CODE=500"
  | .httpMappingNotFound _ =>
    some ("annotate the method with `option (google.api.http) = \x7b get: \"...\" \x7d` or `post: \"...\"`")
  | .badSource _ listing => some listing
  | .manifestContent _ =>
    some "the manifest must be a JSON object mapping handler names to directories"
  | _ => none

/-- The message with the words of its cause, where these are fixed. -/
def detail? (e : Error) : Option String :=
  match e with
  | .decodeRequest | .decodeDescriptors | .badSource _ _ | .reformat _ | .manifestContent _ => none
  | .invalidErrorCode _ fault => some (e.message ++ ": " ++ fault.message)
  | .manifestAccess _ fault => some (e.message ++ ": " ++ fault.message)
  | _ => some e.message

def kind : Error → ErrorClass
  | .decodeRequest | .decodeDescriptors | .noFilesToGenerate | .invalidPathType _
  | .invalidErrorCode _ _ => .input
  | .inconsistentImportPaths _ _ | .inconsistentPackageNames _ _ | .duplicateName _ => .consistency
  | .objectNotFound _ | .fileNotFound _ | .dependencyNotFound _ _ => .resolution
  | .httpMappingNotFound _ => .mapping
  | .badSource _ _ | .reformat _ => .emission
  | .manifestAccess _ _ | .manifestContent _ => .manifest

end Error

end ProtoBind
