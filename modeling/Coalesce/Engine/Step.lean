import Coalesce.Engine.Event
/-! # The steps of an engine

Every step is one critical section, or one stretch of a task or a caller between two of its
suspension points. So a caller's look is one poll: it finds its slot, its token and the engine's
scope as they are at one moment. `Polling` takes polls apart, and `Contention` the reading of the
clock and the lock that a submission takes after it. A step that reads the clock takes the reading.
Steps may come in any order in which each is possible when its turn comes. -/
namespace Coalesce

inductive Payload where
  | text (message : String)
  | other
deriving DecidableEq

def Payload.message : Payload → String
  | .text message => message
  | .other => "non-string panic payload"

inductive Outcome (β : Type) where
  | results (items : List (Except Error β))
  | panic (payload : Payload)

inductive Action (α β : Type) where
  | submit (token : String) (key : Key) (request : α) (now : Instant)
  | arm (id : Nat)
  | wake (id : Nat) (shutdown : Bool) (now : Instant)
  | resume (id : Nat)
  | finish (id : Nat) (outcome : Outcome β)
  | cancel
  | close
  | cancelToken (token : String)
  | look (ticket : Ticket)
  | leave (ticket : Ticket)
  | kill (id : Nat)

namespace Engine
variable {α β : Type}

def joinBatch (e : Engine α β) (token : String) (key : Key) (request : α) (now : Instant) :
    Engine α β × List (Event α β) :=
  let ticket := e.calls.length
  ({ e with
      registry := e.registry.map fun p =>
        if p.1 = key then (p.1, p.2.push request ticket now) else p
      calls := e.calls ++ [{ token := token }]
      counters := e.counters.countSubmit true },
    [.accepted ticket key request])

def openBatch (e : Engine α β) (token : String) (key : Key) (request : α) (now : Instant) :
    Engine α β × List (Event α β) :=
  let ticket := e.calls.length
  let batch := (Batch.empty e.nextId key now).push request ticket now
  ({ e with
      registry := e.registry ++ [(key, batch)]
      nextId := e.nextId + 1
      tasks := e.tasks ++ [⟨e.nextId, key, .spawned⟩]
      calls := e.calls ++ [{ token := token }]
      counters := e.counters.countSubmit false },
    [.accepted ticket key request, .opened e.nextId key])

def enqueue (e : Engine α β) (token : String) (key : Key) (request : α) (now : Instant) :
    Engine α β × List (Event α β) :=
  match e.pending? key with
  | some _ => e.joinBatch token key request now
  | none => e.openBatch token key request now

def submit (e : Engine α β) (token : String) (key : Key) (request : α) (now : Instant) :
    Engine α β × List (Event α β) :=
  if e.cancelled then (e, [.rejected key request]) else e.enqueue token key request now

def settle (e : Engine α β) (slot : Ticket) (result : Except Error β) :
    Engine α β × List (Event α β) :=
  match e.calls[slot]? with
  | none => (e, [])
  | some call =>
    let observed := call.wait.isWaiting
    ({ e with
        calls := e.calls.modify slot fun c => { c with slot := .filled result }
        counters := { e.counters with
          unobserved := e.counters.unobserved + if observed then 0 else 1 } },
      [.settled slot result observed])

def settleAll (e : Engine α β) : List (Ticket × Except Error β) → Engine α β × List (Event α β)
  | [] => (e, [])
  | (slot, result) :: rest =>
    let (e, first) := e.settle slot result
    let (e, others) := e.settleAll rest
    (e, first ++ others)

def failAll (e : Engine α β) (slots : List Ticket) (error : Error) :
    Engine α β × List (Event α β) :=
  e.settleAll (slots.map fun slot => (slot, .error error))

def deliver (e : Engine α β) (b : Batch α) (results : List (Except Error β)) :
    Engine α β × List (Event α β) :=
  if results.length = b.slots.length then e.settleAll (b.slots.zip results)
  else
    let (e, events) :=
      e.failAll b.slots (.resultCountMismatch e.name b.slots.length results.length)
    (e, .mismatched b results.length :: events)

def release (e : Engine α β) (slots : List Ticket) : Engine α β :=
  { e with calls := slots.foldl (fun calls slot => calls.modify slot fun call =>
      match call.slot with
      | .empty => { call with slot := .released }
      | _ => call) e.calls }

/-- The task looks for a worker slot; with one it starts the executor, and if the scope is cancelled
it gives the batch up. -/
def askForWorker (e : Engine α β) (b : Batch α) : Engine α β × List (Event α β) :=
  let (pool, answer) := e.pool.ask b.id e.cancelled
  let e := { e with pool := pool }
  match answer with
  | .waiting => (e.setStage b.id (.queued b), [])
  | .granted =>
    ({ e with counters := e.counters.countStart }.setStage b.id (.running b), [.started b])
  | .cancelled =>
    let (e, events) := (e.endTask b.id).failAll b.slots (.cancelled .engine)
    (e, .abandoned b :: events)

/-- The task reads its batch's deadline and goes to sleep until then; a batch without one is only
closed by a shutdown. A task whose batch is gone ends. -/
def arm (e : Engine α β) (t : BatchTask α) : Engine α β :=
  match e.pendingAs? t.key t.id with
  | none => e.endTask t.id
  | some b => e.setStage t.id (.sleeping ((b.deadline e.idle e.max).map (·.1)))

def dueReason? (e : Engine α β) (b : Batch α) (shutdown : Bool) (now : Instant) :
    Option FlushReason :=
  if shutdown then some .shutdown
  else
    match b.deadline e.idle e.max with
    | some (at_, reason) => if at_ ≤ now then some reason else none
    | none => none

def takeBatch (e : Engine α β) (t : BatchTask α) (b : Batch α) (reason : FlushReason) :
    Engine α β :=
  { e.removeBatch t.key with counters := e.counters.countFlush reason }.setStage t.id (.queued b)

/-- The task wakes, and takes its batch out of the registry if it is due. If requests have moved the
deadline, the task will check again. -/
def wake (e : Engine α β) (t : BatchTask α) (shutdown : Bool) (now : Instant) :
    Engine α β × List (Event α β) :=
  match e.pendingAs? t.key t.id with
  | none => (e.setStage t.id .checking, [])
  | some b =>
    match e.dueReason? b shutdown now with
    | none => (e.setStage t.id .checking, [])
    | some reason => (e.takeBatch t b reason, [.flushed b reason now])

def countEnd (e : Engine α β) : Engine α β := { e with counters := e.counters.countEnd }

def giveBack (e : Engine α β) (b : Batch α) : Engine α β := { e with pool := e.pool.leave b.id }

def endExecution (e : Engine α β) (b : Batch α) : Engine α β :=
  (e.countEnd.giveBack b).endTask b.id

def finish (e : Engine α β) (b : Batch α) (outcome : Outcome β) :
    Engine α β × List (Event α β) :=
  let e := e.endExecution b
  match outcome with
  | .results items => e.deliver b items
  | .panic payload =>
    let (e, events) := e.failAll b.slots (.executorPanicked e.name payload.message)
    (e, .panicked b payload.message :: events)

def dropTimer (e : Engine α β) (t : BatchTask α) : Engine α β × List (Event α β) :=
  match e.pendingAs? t.key t.id with
  | none => (e.endTask t.id, [])
  | some b => (((e.endTask t.id).removeBatch t.key).release b.slots, [.orphaned b])

/-- The task is dropped where it stands. One that never ran leaves its batch behind. -/
def kill (e : Engine α β) (t : BatchTask α) : Engine α β × List (Event α β) :=
  match t.stage with
  | .spawned => (e.endTask t.id, [])
  | .checking => e.dropTimer t
  | .sleeping _ => e.dropTimer t
  | .queued b => ({ e.endTask t.id with pool := e.pool.leave b.id }.release b.slots, [])
  | .running b => ((e.endExecution b).release b.slots, [])

def droppedError (name : String) : Error :=
  .runtime "batch dropped before delivering a result" { source := some name }

/-- What a waiting caller finds when it looks: its result first, then whether the batch was
dropped, then the cancellations, its own before the engine's. -/
def answer? (e : Engine α β) (call : Call β) : Option (Except Error β) :=
  match call.slot with
  | .filled result => some result
  | .released => some (.error (droppedError e.name))
  | .empty =>
    if call.token ∈ e.cancelledTokens then some (.error (.cancelled .caller))
    else if e.cancelled then some (.error (.cancelled .engine))
    else none

def setWait (e : Engine α β) (ticket : Ticket) (wait : Wait β) : Engine α β :=
  { e with calls := e.calls.modify ticket fun call => { call with wait := wait } }

def look (e : Engine α β) (ticket : Ticket) : Engine α β × List (Event α β) :=
  match e.calls[ticket]? with
  | none => (e, [])
  | some call =>
    if call.wait.isWaiting then
      match e.answer? call with
      | some result => (e.setWait ticket (.returned result), [.returned ticket result])
      | none => (e, [])
    else (e, [])

def leave (e : Engine α β) (ticket : Ticket) : Engine α β :=
  match e.calls[ticket]? with
  | none => e
  | some call => if call.wait.isWaiting then e.setWait ticket .left else e

def mayWake (e : Engine α β) (wakeAt : Option Instant) (shutdown : Bool) (now : Instant) : Bool :=
  if shutdown then e.cancelled else wakeAt.any (· ≤ now)

def step? (e : Engine α β) : Action α β → Option (Engine α β × List (Event α β))
  | .submit token key request now => some (e.submit token key request now)
  | .arm id => do
    let t ← e.task? id
    match t.stage with
    | .spawned => some (e.arm t, [])
    | .checking => some (e.arm t, [])
    | _ => none
  | .wake id shutdown now => do
    let t ← e.task? id
    match t.stage with
    | .sleeping wakeAt =>
      if e.mayWake wakeAt shutdown now then some (e.wake t shutdown now) else none
    | _ => none
  | .resume id => do
    let t ← e.task? id
    match t.stage with
    | .queued b => some (e.askForWorker b)
    | _ => none
  | .finish id outcome => do
    let t ← e.task? id
    match t.stage with
    | .running b => some (e.finish b outcome)
    | _ => none
  | .cancel => some ({ e with cancelled := true }, [])
  | .close => if e.cancelled then some ({ e with closed := true }, []) else none
  | .cancelToken token =>
    some ({ e with cancelledTokens := token :: e.cancelledTokens }, [])
  | .look ticket => some (e.look ticket)
  | .leave ticket => some (e.leave ticket, [])
  | .kill id => do return e.kill (← e.task? id)

/-- The engine after the steps in turn, and all their events; none if one is not possible. -/
def run? (e : Engine α β) : List (Action α β) → Option (Engine α β × List (Event α β))
  | [] => some (e, [])
  | action :: rest => do
    let (e, first) ← e.step? action
    let (e, others) ← e.run? rest
    return (e, first ++ others)

end Engine

end Coalesce
