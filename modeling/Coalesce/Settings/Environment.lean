import Coalesce.Settings
import Coalesce.Text.Blank
import Coalesce.Text.Digits
/-! # Settings from the environment

Every variable overrides one field. A name counts when it is not blank, a number when it reads as
one; a number that does not is reported and ignored. -/
namespace Coalesce.Settings
open Text

abbrev Environment := String → Option String

def nameVariable : String := "REQUEST_BATCHER_NAME"
def idleTimeoutVariable : String := "REQUEST_BATCHER_IDLE_TIMEOUT_MS"
def maxTimeoutVariable : String := "REQUEST_BATCHER_MAX_TIMEOUT_MS"
def maxWorkersVariable : String := "REQUEST_BATCHER_MAX_WORKERS"

def nameOverride (env : Environment) : Option String :=
  (env nameVariable).bind fun raw => if (trim raw).isEmpty then none else some (trim raw)

def ignored (variableName raw : String) : LogEntry :=
  ⟨.warn, "ignoring unparseable batcher setting",
    [("var", .inl variableName), ("value", .inl raw)]⟩

def numberOverride (env : Environment) (variableName : String) :
    Option UInt64 × List LogEntry :=
  match env variableName with
  | none => (none, [])
  | some raw =>
    match unsigned (trim raw) with
    | .ok n => (some n, [])
    | .error _ => (none, [ignored variableName raw])

def override (s : Settings) (env : Environment) : Settings × List LogEntry :=
  let (idle, idleLog) := numberOverride env idleTimeoutVariable
  let (max, maxLog) := numberOverride env maxTimeoutVariable
  let (workers, workersLog) := numberOverride env maxWorkersVariable
  ({ name := (nameOverride env).getD s.name
     idleTimeoutMs := idle.getD s.idleTimeoutMs
     maxTimeoutMs := max.getD s.maxTimeoutMs
     maxRequestWorkers := workers.getD s.maxRequestWorkers },
   idleLog ++ maxLog ++ workersLog)

end Coalesce.Settings
