import Coalesce.Json.Basic
import Coalesce.Log
import Coalesce.Pool
/-! # A scenario of a worker pool alone

Tasks wait for a slot under a named cancellation scope, hold it for a time, and yield a value or
panic. -/
namespace Coalesce.Scenario

inductive TaskEnd where
  | value (value : Json)
  | error (error : Error)
  | panic (message : String)
  | dropped

inductive TaskState where
  | waiting
  | running (due : Nat)
  | ended (how : TaskEnd)

structure PoolTask where
  id : String
  scope : String
  ms : Nat
  panic : Option String
  value : Json
  state : TaskState := .waiting

inductive PoolOp where
  | run (task : PoolTask)
  | cancel (scope : String)
  | drop (id : String)
  | advance (ms : Nat)
  | look

/-- The pool with its tasks in the order in which they came, and who started and ended, by position,
since the last act began. -/
structure PoolWorld where
  now : Nat := 0
  pool : Pool
  tasks : List PoolTask := []
  cancelled : List String := []
  started : List (Nat × String) := []
  ended : List Nat := []

namespace PoolWorld

def setState (w : PoolWorld) (i : Nat) (state : TaskState) : PoolWorld :=
  { w with tasks := w.tasks.modify i fun t => { t with state := state } }

def endTask (w : PoolWorld) (i : Nat) (how : TaskEnd) : PoolWorld :=
  { w.setState i (.ended how) with ended := w.ended ++ [i] }

def ask (w : PoolWorld) (i : Nat) (t : PoolTask) : PoolWorld :=
  let (pool, answer) := w.pool.ask i (w.cancelled.contains t.scope)
  let w := { w with pool := pool }
  match answer with
  | .cancelled => w.endTask i (.error (.cancelled .engine))
  | .waiting => w
  | .granted =>
    { w.setState i (.running (w.now + t.ms)) with started := w.started ++ [(w.now, t.id)] }

def finish (w : PoolWorld) (i : Nat) (t : PoolTask) : PoolWorld :=
  let how := match t.panic with
    | some message => .panic message
    | none => .value t.value
  { w with pool := w.pool.leave i }.endTask i how

def step? (w : PoolWorld) (i : Nat) (t : PoolTask) : Option PoolWorld :=
  match t.state with
  | .waiting =>
    if w.pool.isReady i (w.cancelled.contains t.scope) then some (w.ask i t) else none
  | .running due => if due ≤ w.now then some (w.finish i t) else none
  | .ended _ => none

def happen? (w : PoolWorld) : Option PoolWorld :=
  w.tasks.zipIdx.findSome? fun (t, i) => w.step? i t

def settleOn : Nat → PoolWorld → PoolWorld
  | 0, w => w
  | fuel + 1, w =>
    match w.happen? with
    | none => w
    | some w => settleOn fuel w

/-- A task takes at most three steps at one time: into the queue, into a slot, and out. -/
def settle (w : PoolWorld) : PoolWorld := settleOn (3 * w.tasks.length + 1) w

def nextDue? (w : PoolWorld) (target : Nat) : Option Nat :=
  (w.tasks.filterMap fun t =>
    match t.state with
    | .running due => if due ≤ target then some due else none
    | _ => none).min?

def advanceTo (target : Nat) : Nat → PoolWorld → PoolWorld
  | 0, w => { w with now := target }
  | fuel + 1, w =>
    match w.nextDue? target with
    | none => { w with now := target }
    | some t => advanceTo target fuel { w with now := max w.now t }.settle

def advance (w : PoolWorld) (ms : Nat) : PoolWorld :=
  advanceTo (w.now + ms) (w.tasks.length + 1) w

def isEnded (t : PoolTask) : Bool :=
  match t.state with
  | .ended _ => true
  | _ => false

def drop (w : PoolWorld) (id : String) : PoolWorld :=
  let leaving := w.tasks.zipIdx.filter fun (t, _) => t.id == id && !isEnded t
  leaving.foldl (fun w (_, i) => { w with pool := w.pool.leave i }.endTask i .dropped) w

def perform (w : PoolWorld) (op : PoolOp) : PoolWorld :=
  let w := { w with started := [], ended := [] }
  match op with
  | .run task => { w with tasks := w.tasks ++ [task] }.settle
  | .cancel scope => { w with cancelled := scope :: w.cancelled }.settle
  | .drop id => (w.drop id).settle
  | .advance ms => w.advance ms
  | .look => w.settle

def endedTasks (w : PoolWorld) : List (String × TaskEnd) :=
  w.tasks.zipIdx.filterMap fun (t, i) =>
    match t.state with
    | .ended how => if w.ended.contains i then some (t.id, how) else none
    | _ => none

def startedTasks (w : PoolWorld) : List (Nat × String) :=
  sortEntries (·.1) (fun _ => 0) (fun e => .string e.2) w.started

end PoolWorld

end Coalesce.Scenario
