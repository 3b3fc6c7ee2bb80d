import Coalesce.Settings.Environment
import Coalesce.Settings.File
import Coalesce.Storm.Plan
/-! # Arguments of a storm

Arguments come in pairs of a flag and its value. The settings come from a file, if one is named, and
then from the environment; flags override both. The file is looked for before the pairs are read: it
is named by what follows the first `--config`, wherever that stands. -/
namespace Coalesce.Storm
open Text

inductive ArgumentFault where
  | missingValue (flag : String)
  | badNumber (fault : DigitsFault)
  | unknown (argument : String)
  | unloadable (path : String) (error : Error)
  | invalid (error : Error)
deriving DecidableEq

namespace ArgumentFault

def message : ArgumentFault → String
  | .missingValue flag => "missing value for " ++ flag
  | .badNumber fault => fault.message
  | .unknown argument => "unknown argument: " ++ argument
  | .unloadable path _ => "loading settings from " ++ path
  | .invalid error => error.message

def causes : ArgumentFault → List String
  | .unloadable _ error => error.message :: error.causes
  | .invalid error => error.causes
  | _ => []

end ArgumentFault

def configFlag : String := "--config"

def configPath? : List String → Except ArgumentFault (Option String)
  | [] => .ok none
  | argument :: rest =>
    if argument = configFlag then
      match rest with
      | [] => .error (.missingValue configFlag)
      | path :: _ => .ok (some path)
    else configPath? rest

def configSettings (read : Settings.FileReader) (arguments : List String) :
    Except ArgumentFault Settings := do
  match ← configPath? arguments with
  | none => return {}
  | some path => (Settings.ofFile read path).mapError (.unloadable path)

inductive NumberFlag where
  | requests
  | keys
  | execMs
  | workers
  | idleMs
  | maxMs
deriving DecidableEq

namespace NumberFlag

def all : List NumberFlag := [.requests, .keys, .execMs, .workers, .idleMs, .maxMs]

def text : NumberFlag → String
  | .requests => "--requests"
  | .keys => "--keys"
  | .execMs => "--exec-ms"
  | .workers => "--workers"
  | .idleMs => "--idle-ms"
  | .maxMs => "--max-ms"

def named? (s : String) : Option NumberFlag := all.find? fun f => f.text = s

def set (f : NumberFlag) (p : Plan) (n : UInt64) : Plan :=
  match f with
  | .requests => { p with requests := n }
  | .keys => { p with keys := n }
  | .execMs => { p with execMs := n }
  | .workers => { p with settings := { p.settings with maxRequestWorkers := n } }
  | .idleMs => { p with settings := { p.settings with idleTimeoutMs := n } }
  | .maxMs => { p with settings := { p.settings with maxTimeoutMs := n } }

end NumberFlag

def isHelp (argument : String) : Bool := argument = "-h" || argument = "--help"

/-- What a pair does to a plan; nothing is left of it where help is asked for. -/
def readPair (p : Plan) (flag : String) (value : Option String) :
    Except ArgumentFault (Option Plan) :=
  if isHelp flag then .ok none
  else if flag = configFlag then .ok (some p)
  else
    match NumberFlag.named? flag with
    | none => .error (.unknown flag)
    | some f =>
      match value with
      | none => .error (.missingValue flag)
      | some value =>
        match unsigned value with
        | .error fault => .error (.badNumber fault)
        | .ok n => .ok (some (f.set p n))

def readPairs (p : Plan) : List String → Except ArgumentFault (Option Plan)
  | [] => .ok (some p)
  | [flag] => readPair p flag none
  | flag :: value :: rest => do
    match ← readPair p flag (some value) with
    | none => return none
    | some p => readPairs p rest

def readArguments (env : Settings.Environment) (read : Settings.FileReader)
    (arguments : List String) : Except ArgumentFault (Option Plan) := do
  let settings ← configSettings read arguments
  match ← readPairs { settings := (settings.override env).1 } arguments with
  | none => return none
  | some p =>
    match p.settings.validate with
    | .error e => throw (.invalid e)
    | .ok _ => return some p

end Coalesce.Storm
