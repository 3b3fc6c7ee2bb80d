import Coalesce.Scenario.Script
/-! # A scenario as it runs

After every act all that can happen at the current time happens, each engine step being one that is
possible then. -/
namespace Coalesce.Scenario

structure Execution where
  batcher : Nat
  batch : Batch Request
  script : Script
  due : Nat
  stopped : Bool := false

structure Caller where
  id : String
  batcher : Nat
  ticket : Ticket

structure Member where
  engine : Engine Request Json
  grouping : Grouping

inductive CallKind where
  | start
  | ended (count : Nat)
  | panicked
deriving DecidableEq

structure CallEntry where
  time : Nat
  kind : CallKind
  batcher : Nat
  ids : List String

structure Record where
  resolved : List (String × Except Error Json) := []
  calls : List CallEntry := []
  log : List (Nat × LogEntry) := []
  finishedShutdowns : List Nat := []

structure World where
  now : Nat := 0
  members : List Member := []
  executions : List Execution := []
  callers : List Caller := []
  shutdowns : List Nat := []
  aborted : Bool := false
  record : Record := {}

namespace CallEntry

def kindName : CallKind → String
  | .start => "start"
  | .ended _ => "end"
  | .panicked => "panic"

def countJson : CallKind → Json
  | .ended count => .ofNat count
  | _ => .null

def toJson (c : CallEntry) : Json :=
  .array [.ofNat c.time, .string (kindName c.kind), .ofNat c.batcher,
    .array (c.ids.map .string), countJson c.kind]

def rank (c : CallEntry) : Nat := if c.kind = .start then 1 else 0

def sort (calls : List CallEntry) : List CallEntry := sortEntries time rank toJson calls

end CallEntry

namespace World

def instant (w : World) : Instant := .ofMillis w.now

def logAt (w : World) (entry : LogEntry) : World :=
  { w with record := { w.record with log := w.record.log ++ [(w.now, entry)] } }

def noteCall (w : World) (kind : CallKind) (x : Execution) : World :=
  { w with record := { w.record with
      calls := w.record.calls ++ [⟨w.now, kind, x.batcher, x.batch.requests.map (·.id)⟩] } }

/-- The executor starts on a batch. One that panics at once is not noted. -/
def startExecution (w : World) (batcher : Nat) (batch : Batch Request) : World :=
  let script := (batch.requests.head?.map (·.script)).getD {}
  let execution : Execution := ⟨batcher, batch, script, w.now + script.ms, false⟩
  match script.panicEarly with
  | some _ => { w with executions := w.executions ++ [{ execution with due := w.now }] }
  | none => { w with executions := w.executions ++ [execution] }.noteCall .start execution

def observe (batcher : Nat) (name : String) (w : World) (event : Event Request Json) : World :=
  let w := match event.logEntry? name with
    | some entry => w.logAt entry
    | none => w
  match event with
  | .started batch => w.startExecution batcher batch
  | _ => w

def act (w : World) (batcher : Nat) (action : Action Request Json) :
    World × List (Event Request Json) :=
  match w.members[batcher]? with
  | none => (w, [])
  | some member =>
    match member.engine.step? action with
    | none => (w, [])
    | some (engine, events) =>
      let w := { w with members := w.members.set batcher { member with engine := engine } }
      (events.foldl (observe batcher engine.name) w, events)

def nextStep? (w : World) (member : Member) : Option (Action Request Json) :=
  let e := member.engine
  e.tasks.findSome? fun t =>
    match t.stage with
    | .spawned => some (.arm t.id)
    | .checking => some (.arm t.id)
    | .sleeping wakeAt =>
      if wakeAt.any (· ≤ w.instant) then some (.wake t.id false w.instant)
      else if e.cancelled then some (.wake t.id true w.instant)
      else none
    | .queued b =>
      if e.pool.isReady b.id e.cancelled then some (.resume t.id) else none
    | .running _ => none

def endExecution (w : World) (x : Execution) : World :=
  let w := { w with executions := w.executions.filter fun y =>
    !(y.batcher == x.batcher && y.batch.id == x.batch.id) }
  let outcome : Outcome Json :=
    match x.script.panicEarly, x.script.panic with
    | some text, _ => .panic (.text text)
    | none, some payload => .panic payload
    | none, none => .results (x.script.results x.stopped x.batch.requests)
  let w := match x.script.panicEarly, outcome with
    | some _, _ => w
    | none, .panic _ => w.noteCall .panicked x
    | none, .results items => w.noteCall (.ended items.length) x
  (w.act x.batcher (.finish x.batch.id outcome)).1

def happen? (w : World) (batcher : Nat) : Option World :=
  match w.executions.find? fun x => x.batcher == batcher && x.due ≤ w.now with
  | some x => some (w.endExecution x)
  | none =>
    match w.members[batcher]? with
    | none => none
    | some member => (w.nextStep? member).map fun action => (w.act batcher action).1

def settleBatcher (batcher : Nat) : Nat → World → World
  | 0, w => w
  | fuel + 1, w =>
    match w.happen? batcher with
    | none => w
    | some w => settleBatcher batcher fuel w

def taskCount (w : World) : Nat := w.members.foldr (fun m n => m.engine.tasks.length + n) 0

/-- All that can happen at the current time happens. A task takes at most seven steps at one time:
it reads its deadline, wakes too soon, reads it again, wakes, asks for a slot, takes it and ends. -/
def settle (w : World) : World :=
  let fuel := 8 * w.taskCount + 8
  (List.range w.members.length).foldl (fun w b => settleBatcher b fuel w) w

def nextDue? (w : World) (target : Nat) : Option Nat :=
  let timers := w.members.flatMap fun m => m.engine.tasks.filterMap fun t =>
    match t.stage with
    | .sleeping wakeAt => wakeAt.map Instant.millis
    | _ => none
  let ends := w.executions.map (·.due)
  ((timers ++ ends).filter (· ≤ target)).min?

def advanceTo (target : Nat) : Nat → World → World
  | 0, w => { w with now := target }
  | fuel + 1, w =>
    match w.nextDue? target with
    | none => { w with now := target }
    | some t => advanceTo target fuel { w with now := max w.now t }.settle

/-- A task is the reason for at most three stops: it wakes too soon, it wakes, it ends. -/
def advance (w : World) (ms : Nat) : World :=
  (advanceTo (w.now + ms) (4 * w.taskCount + 4) w.settle).settle

def lookOne (w : World) (caller : Caller) : World :=
  let (w, events) := w.act caller.batcher (.look caller.ticket)
  let result := events.findSome? fun
    | .returned _ result => some result
    | _ => none
  match result with
  | none => w
  | some result =>
    { w with
      callers := w.callers.filter fun c =>
        !(c.batcher == caller.batcher && c.ticket == caller.ticket)
      record := { w.record with resolved := w.record.resolved ++ [(caller.id, result)] } }

def isDrained (w : World) (batcher : Nat) : Bool :=
  (w.members[batcher]?.map fun m => m.engine.isDrained).getD true

/-- Every waiting caller looks, in the order of submission; then the shutdowns do. -/
def look (w : World) : World :=
  let w := w.callers.foldl lookOne w
  let (finished, waiting) := w.shutdowns.partition w.isDrained
  { w with
    shutdowns := waiting
    record := { w.record with
      finishedShutdowns := w.record.finishedShutdowns ++ finished } }

/-- Cancels the scope of a batcher's engine. Executions that mind a cancellation now end some time
after it. -/
def cancelScope (w : World) (batcher : Nat) : World :=
  let already := (w.members[batcher]?.map fun m => m.engine.cancelled).getD true
  let (w, _) := w.act batcher .cancel
  if already then w
  else
    { w with executions := w.executions.map fun x =>
        match x.script.onCancel with
        | some delay =>
          if x.batcher == batcher && w.now < x.due then
            { x with due := w.now + max 1 delay, stopped := true }
          else x
        | none => x }

def submitOne (w : World) (s : Submission) : World :=
  match w.members[s.batcher]? with
  | none => w
  | some member =>
    let ticket := member.engine.calls.length
    let caller : Caller := ⟨s.request.id, s.batcher, ticket⟩
    let (w, events) :=
      w.act s.batcher (.submit s.token (member.grouping.keyOf s) s.request w.instant)
    match events.findSome? Event.refusal? with
    | none => { w with callers := w.callers ++ [caller] }.lookOne caller
    | some error =>
      { w with record := { w.record with
          resolved := w.record.resolved ++ [(s.request.id, .error error)] } }

def cancel (w : World) (token : String) : World :=
  let all := List.range w.members.length
  let w := all.foldl (fun w b => (w.act b (.cancelToken token)).1) w
  if token = rootToken then all.foldl cancelScope w else w

def drop (w : World) (id : String) : World :=
  let (leaving, staying) := w.callers.partition fun c => c.id == id
  leaving.foldl (fun w c => (w.act c.batcher (.leave c.ticket)).1) { w with callers := staying }

def shutdown (w : World) (batcher : Nat) : World :=
  let name := (w.members[batcher]?.map fun m => m.engine.name).getD ""
  let w := (w.logAt (shutdownEntry name)).cancelScope batcher
  let (w, _) := w.act batcher .close
  if w.isDrained batcher then
    { w with record := { w.record with
        finishedShutdowns := w.record.finishedShutdowns ++ [batcher] } }
  else { w with shutdowns := w.shutdowns ++ [batcher] }

def abort (w : World) : World :=
  let kills := w.members.mapIdx fun b m => m.engine.tasks.map fun t => (b, t.id)
  let w := kills.flatten.foldl (fun w k => (w.act k.1 (.kill k.2)).1) w
  { w with executions := [], aborted := true }

def allows (w : World) (op : Op) : Bool := !w.aborted || op.outlivesRuntime

def direct (w : World) : Op → World
  | .submit submissions => submissions.foldl submitOne w
  | .advance _ => w
  | .cancel token => w.cancel token
  | .drop id => w.drop id
  | .shutdown batcher => w.shutdown batcher
  | .abort => w.abort
  | .look => w

def proceed (w : World) : Op → World
  | .advance ms => w.advance ms
  | .abort => w
  | _ => w.settle

/-- An act with all that follows. Unless it is quiet, callers look before tasks run and after. -/
def perform (w : World) (op : Op) (quiet : Bool) : World :=
  let w := { w with record := {} }.direct op
  let early := match op with
    | .abort => true
    | _ => quiet
  let w := (if early then w else w.look).proceed op
  if quiet then w else w.look

end World

end Coalesce.Scenario
