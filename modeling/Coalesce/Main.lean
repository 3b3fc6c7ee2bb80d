import Coalesce.Directory
import Coalesce.Storm.Command
/-! # The command

Reads arguments, environment and settings file, and writes what the storm answers. -/
namespace Coalesce

def systemFault : IO.Error → String
  | .noFileOrDirectory .. => FileFault.notFound.message
  | .inappropriateType _ code _ =>
    (if code = 21 then FileFault.isDirectory else FileFault.notDirectory).message
  | .permissionDenied .. => "Permission denied (os error 13)"
  | e => e.toString

def readTextFile (path : String) : IO (Except String String) := do
  try
    let content ← IO.FS.readBinFile path
    match String.fromUTF8? content with
    | some text => return .ok text
    | none => return .error FileFault.notUnicode.message
  catch e => return .error (systemFault e)

def readEnvironment : IO Settings.Environment := do
  let names := [Settings.nameVariable, Settings.idleTimeoutVariable, Settings.maxTimeoutVariable,
    Settings.maxWorkersVariable]
  let values ← names.mapM fun name => do return (name, ← IO.getEnv name)
  return fun name => (values.lookup name).join

def readConfig (arguments : List String) : IO Settings.FileReader := do
  match Storm.configPath? arguments with
  | .ok (some path) =>
    let content ← readTextFile path
    return fun _ => content
  | _ => return fun _ => .error FileFault.notFound.message

end Coalesce

def main (arguments : List String) : IO UInt32 := do
  let env ← Coalesce.readEnvironment
  let read ← Coalesce.readConfig arguments
  let response := Coalesce.Storm.respond env read arguments
  for line in response.output do
    IO.println line
  IO.eprint response.errors
  return response.code
