import Coalesce.Error
import Coalesce.Log
import Coalesce.Time
/-! # Settings of a batcher -/
namespace Coalesce

structure Settings where
  name : String := "batcher"
  idleTimeoutMs : UInt64 := 100
  maxTimeoutMs : UInt64 := 1000
  maxRequestWorkers : UInt64 := 100
deriving DecidableEq

/-- Checks what makes a batcher work: a worker, and a batch that does not have to close at once.
A timeout that can never come first is only warned about. -/
def checkLimits (name : String) (idle max : Duration) (workers : UInt64) :
    Except Error (List LogEntry) :=
  if workers = 0 then
    .error (.configuration "max_request_workers must be at least 1"
      { fieldPath := some "max_request_workers", source := some name })
  else if max.isZero then
    .error (.configuration "max_timeout must be greater than zero"
      { fieldPath := some "max_timeout", source := some name })
  else if max < idle then
    .ok [⟨.warn, "idle_timeout exceeds max_timeout; batches will only flush on max_timeout",
      [("batcher", .inl name), ("idle_timeout_ms", .inr idle.millis64.toNat),
       ("max_timeout_ms", .inr max.millis64.toNat)]⟩]
  else .ok []

namespace Settings

def idleTimeout (s : Settings) : Duration := .ofMillis s.idleTimeoutMs

def maxTimeout (s : Settings) : Duration := .ofMillis s.maxTimeoutMs

def validate (s : Settings) : Except Error (List LogEntry) :=
  checkLimits s.name s.idleTimeout s.maxTimeout s.maxRequestWorkers

end Settings

end Coalesce
