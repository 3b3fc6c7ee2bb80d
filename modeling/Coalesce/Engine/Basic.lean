import Coalesce.Batch
import Coalesce.Options
import Coalesce.Pool
/-! # The state of a batching engine

A registry holds the pending batches, at most one under a key. Every batch has one task, which times
it, then waits for a worker slot and runs the executor. Every accepted request has one call, which
waits at the other end of the request's slot. -/
namespace Coalesce

/-- The end of a result's way at which it is put in. -/
inductive Slot (β : Type) where
  | empty
  | filled (result : Except Error β)
  | released

/-- The end of a result's way at which a caller waits, or has stopped waiting. -/
inductive Wait (β : Type) where
  | waiting
  | returned (result : Except Error β)
  | left

def Wait.isWaiting {β : Type} : Wait β → Bool
  | .waiting => true
  | _ => false

structure Call (β : Type) where
  token : String
  slot : Slot β := .empty
  wait : Wait β := .waiting

/-- How far a batch's task has come. A task that has not run yet has nothing to clean up. -/
inductive Stage (α : Type) where
  | spawned
  | checking
  | sleeping (wakeAt : Option Instant)
  | queued (batch : Batch α)
  | running (batch : Batch α)

namespace Stage
variable {α : Type}

def isTiming : Stage α → Bool
  | .queued _ => false
  | .running _ => false
  | _ => true

def batch? : Stage α → Option (Batch α)
  | .queued b => some b
  | .running b => some b
  | _ => none

end Stage

structure BatchTask (α : Type) where
  id : Nat
  key : Key
  stage : Stage α

structure Counters where
  active : Nat := 0
  completed : Nat := 0
  submitted : Nat := 0
  coalesced : Nat := 0
  unobserved : Nat := 0
  idleFlushes : Nat := 0
  maxTimeoutFlushes : Nat := 0
  shutdownFlushes : Nat := 0
deriving DecidableEq

namespace Counters

def countSubmit (c : Counters) (joined : Bool) : Counters :=
  { c with
    submitted := c.submitted + 1
    coalesced := if joined then c.coalesced + 1 else c.coalesced }

def countFlush (c : Counters) : FlushReason → Counters
  | .idle => { c with idleFlushes := c.idleFlushes + 1 }
  | .maxTimeout => { c with maxTimeoutFlushes := c.maxTimeoutFlushes + 1 }
  | .shutdown => { c with shutdownFlushes := c.shutdownFlushes + 1 }

def countStart (c : Counters) : Counters := { c with active := c.active + 1 }

def countEnd (c : Counters) : Counters :=
  { c with active := c.active - 1, completed := c.completed + 1 }

end Counters

/-- A batching engine over requests `α` and results `β`. The registry files every pending batch
under a key. Calls are listed by ticket. The engine's scope may be cancelled; its list of tasks is
closed once a shutdown waits for them. -/
structure Engine (α β : Type) where
  name : String
  idle : Duration
  max : Duration
  pool : Pool
  registry : List (Key × Batch α) := []
  nextId : Nat := 0
  tasks : List (BatchTask α) := []
  calls : List (Call β) := []
  counters : Counters := {}
  cancelled : Bool := false
  closed : Bool := false
  cancelledTokens : List String := []

inductive BuildFault where
  | invalid (error : Error)
  | tooManyWorkers
deriving DecidableEq

structure Stats where
  pendingBatches : Nat
  pendingRequests : Nat
  counters : Counters
  maxWorkers : Nat
  availableWorkers : Nat
  workersInUse : Nat
deriving DecidableEq

namespace Engine
variable {α β : Type}

def build (o : Options) : Except BuildFault (Engine α β × List LogEntry) :=
  match o.validate with
  | .error e => .error (.invalid e)
  | .ok warnings =>
    match Pool.create? o.maxRequestWorkers.toNat with
    | none => .error .tooManyWorkers
    | some pool =>
      .ok ({ name := o.name, idle := o.idleTimeout, max := o.maxTimeout, pool := pool },
        warnings ++ [⟨.info, "batcher started",
          [("batcher", .inl o.name), ("idle_timeout_ms", .inr o.idleTimeout.millis64.toNat),
           ("max_timeout_ms", .inr o.maxTimeout.millis64.toNat),
           ("max_request_workers", .inr o.maxRequestWorkers.toNat)]⟩])

def pending? (e : Engine α β) (key : Key) : Option (Batch α) := e.registry.lookup key

def pendingAs? (e : Engine α β) (key : Key) (id : Nat) : Option (Batch α) :=
  (e.pending? key).filter fun b => b.id = id

def task? (e : Engine α β) (id : Nat) : Option (BatchTask α) :=
  e.tasks.find? fun t => t.id = id

def setStage (e : Engine α β) (id : Nat) (stage : Stage α) : Engine α β :=
  { e with tasks := e.tasks.map fun t => if t.id = id then { t with stage := stage } else t }

def endTask (e : Engine α β) (id : Nat) : Engine α β :=
  { e with tasks := e.tasks.filter fun t => t.id ≠ id }

def removeBatch (e : Engine α β) (key : Key) : Engine α β :=
  { e with registry := e.registry.filter fun p => p.1 ≠ key }

def isDrained (e : Engine α β) : Bool := e.closed && e.tasks.isEmpty

def stats (e : Engine α β) : Stats where
  pendingBatches := e.registry.length
  pendingRequests := e.registry.foldr (fun p n => p.2.size + n) 0
  counters := e.counters
  maxWorkers := e.pool.max
  availableWorkers := e.pool.available
  workersInUse := e.pool.inUse

end Engine

end Coalesce
