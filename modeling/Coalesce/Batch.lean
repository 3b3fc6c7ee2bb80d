import Coalesce.Key
import Coalesce.Time
/-! # Pending batches

A batch collects the requests of one key until its deadline: an idle timeout after the latest
request, or a longest time after the first one, whichever comes first. -/
namespace Coalesce

inductive FlushReason where
  | idle
  | maxTimeout
  | shutdown
deriving DecidableEq

def FlushReason.name : FlushReason → String
  | .idle => "idle"
  | .maxTimeout => "max_timeout"
  | .shutdown => "shutdown"

/-- The place of an accepted request in the order of submission; its caller waits under it. -/
abbrev Ticket := Nat

structure Batch (α : Type) where
  id : Nat
  key : Key
  requests : List α := []
  slots : List Ticket := []
  createdAt : Instant
  lastActivity : Instant

namespace Batch
variable {α : Type}

def empty (id : Nat) (key : Key) (now : Instant) : Batch α where
  id := id
  key := key
  createdAt := now
  lastActivity := now

def push (b : Batch α) (request : α) (slot : Ticket) (now : Instant) : Batch α :=
  { b with requests := b.requests ++ [request], slots := b.slots ++ [slot], lastActivity := now }

def size (b : Batch α) : Nat := b.requests.length

def age (b : Batch α) (now : Instant) : Duration := now.since b.createdAt

/-- When the batch has to flush, and why. A timeout that reaches no instant never fires; where
both timeouts fire at once, the longest time is the reason. -/
def deadline (b : Batch α) (idle max : Duration) : Option (Instant × FlushReason) :=
  match b.lastActivity.add? idle, b.createdAt.add? max with
  | some idleAt, some maxAt =>
    if idleAt < maxAt then some (idleAt, .idle) else some (maxAt, .maxTimeout)
  | none, some maxAt => some (maxAt, .maxTimeout)
  | some idleAt, none => some (idleAt, .idle)
  | none, none => none

end Batch

end Coalesce
