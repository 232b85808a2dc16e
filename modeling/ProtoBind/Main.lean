import ProtoBind.CommandLine

/-!
# The program

`main` connects the command line to the standard streams, the environment and the files of the system.
-/

set_option autoImplicit false

namespace ProtoBind.Program

open Wire

def faultOf (e : IO.Error) : FileFault :=
  match e with
  | .noFileOrDirectory _ _ _ => .notFound
  | .inappropriateType _ code _ => if code = 21 then .isDirectory else .notDirectory
  | e => .other (toString e)

def readFile (path : String) : IO (Except FileFault Bytes) := do
  try
    return .ok (← IO.FS.readBinFile path).toList
  catch e => return .error (faultOf e)

def writeFile (path : String) (content : Bytes) : IO (Option FileFault) := do
  try
    IO.FS.writeBinFile path ⟨content.toArray⟩
    return none
  catch e => return some (faultOf e)

def systemFiles : FileStore IO := ⟨readFile, writeFile⟩

/-- Everything on a stream, behind what was read so far. -/
partial def readAll (stream : IO.FS.Stream) (content : ByteArray) : IO ByteArray := do
  let more ← stream.read 65536
  if more.isEmpty then return content else readAll stream (content ++ more)

def standardInput : IO Bytes := do return (← readAll (← IO.getStdin) .empty).toList

end ProtoBind.Program

open ProtoBind ProtoBind.Program in
def main (arguments : List String) : IO UInt32 := do
  let errorCode ← IO.getEnv "GEN_ERROR_CODE"
  let outcome ← CommandLine.run systemFiles standardInput errorCode arguments
  unless outcome.output.isEmpty do
    let output ← IO.getStdout
    output.write ⟨outcome.output.toArray⟩
    output.flush
  unless outcome.complaint.isEmpty do IO.eprintln outcome.complaint
  return outcome.status.toUInt32
