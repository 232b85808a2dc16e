import ProtoBind.Run

/-!
# The command line

The options of the program, and a run of it over any way to read and write files.
-/

set_option autoImplicit false

namespace ProtoBind.CommandLine

open Wire

/-- Where a request is read from and where its answer goes; the standard streams if nothing is said. -/
structure Options where
  input : Option String := none
  output : Option String := none
  deriving DecidableEq, Repr

inductive Command where
  | run (options : Options)
  | version
  | help
  | misuse
  deriving DecidableEq, Repr

def behind? (start text : String) : Option String :=
  if start.toList.isPrefixOf text.toList then some (String.ofList (text.toList.drop start.length)) else none

/-- Whether an argument cannot be the value of an option that stands before it. -/
def isOption (argument : String) : Bool :=
  match argument.toList with
  | '-' :: _ :: _ => true
  | _ => false

/-- The options with a path for the input, which must not have one yet. -/
def Options.withInput? (options : Options) (path : String) : Option Options :=
  if path = "" ∨ options.input.isSome then none else some { options with input := some path }

def Options.withOutput? (options : Options) (path : String) : Option Options :=
  if path = "" ∨ options.output.isSome then none else some { options with output := some path }

/-- Reads arguments up to the first one that settles what they ask for. -/
def Command.parseFrom (options : Options) : List String → Command
  | [] => .run options
  | argument :: rest =>
    if argument = "--version" ∨ "-V".toList.isPrefixOf argument.toList then .version
    else if argument = "--help" ∨ "-h".toList.isPrefixOf argument.toList then .help
    else if argument = "--" then if rest = [] then .run options else .misuse
    else if argument = "--input" then
      match rest with
      | [] => .misuse
      | path :: rest =>
        if isOption path then .misuse
        else match options.withInput? path with
          | some options => parseFrom options rest
          | none => .misuse
    else if argument = "--output" then
      match rest with
      | [] => .misuse
      | path :: rest =>
        if isOption path then .misuse
        else match options.withOutput? path with
          | some options => parseFrom options rest
          | none => .misuse
    else match behind? "--input=" argument with
      | some path =>
        match options.withInput? path with
        | some options => parseFrom options rest
        | none => .misuse
      | none =>
        match (behind? "--output=" argument).bind options.withOutput? with
        | some options => parseFrom options rest
        | none => .misuse

def Command.parse (arguments : List String) : Command := parseFrom {} arguments

structure Outcome where
  status : UInt8 := 0
  /-- What goes to the standard output. -/
  output : Bytes := []
  /-- What goes to the standard error stream. -/
  complaint : String := ""
  deriving DecidableEq

def versionText : String := "protoc-gen-rain 0.1.0\n"

def helpText : String :=
  "Generates serde models and HTTP route bindings. Invoked by `protoc` as a plugin\n\n" ++
  "Usage: protoc-gen-rain [OPTIONS]\n\n" ++
  "Options:\n" ++
  "      --input <PATH>   Read the encoded CodeGeneratorRequest from a file instead of stdin\n" ++
  "      --output <PATH>  Write the encoded CodeGeneratorResponse to a file instead of stdout\n" ++
  "  -h, --help           Print help\n" ++
  "  -V, --version        Print version\n"

def failure (complaint : String) : Outcome := { status := 1, complaint }

def answer {m : Type → Type} [Monad m] (store : FileStore m) (errorCode : Option String)
    (options : Options) (request : Bytes) : m Outcome := do
  match ← generateFor store request errorCode with
  | .error e => return failure ((e.detail?).getD e.message)
  | .ok response =>
    match options.output with
    | none => return { output := response.encode }
    | some path =>
      match ← store.write path response.encode with
      | some fault => return failure fault.message
      | none => return {}

def run {m : Type → Type} [Monad m] (store : FileStore m) (standardInput : m Bytes)
    (errorCode : Option String) (arguments : List String) : m Outcome := do
  match Command.parse arguments with
  | .version => return { output := utf8 versionText }
  | .help => return { output := utf8 helpText }
  | .misuse => return { status := 2, complaint := helpText }
  | .run options =>
    match options.input with
    | none => answer store errorCode options (← standardInput)
    | some path =>
      match ← store.read path with
      | .error fault => return failure fault.message
      | .ok request => answer store errorCode options request

end ProtoBind.CommandLine
