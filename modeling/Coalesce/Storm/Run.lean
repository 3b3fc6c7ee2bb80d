import Coalesce.Storm.Plan
/-! # A storm under way

A storm is an engine and the moves that callers, tasks and the backend make on it, in any order in
which they are possible. -/
namespace Coalesce

/-- The engine that takes a storm, and the executions that its backend counts: those under way, and
the most that were under way at one time. -/
structure Storm where
  engine : Engine Nat Nat
  active : Nat := 0
  peak : Nat := 0

namespace Storm

inductive Move where
  | submit (item : Nat) (now : Instant)
  | arm (id : Nat)
  | wake (id : Nat) (now : Instant)
  | resume (id : Nat)
  | finish (id : Nat)
  | look (ticket : Ticket)
deriving DecidableEq

def Move.action? (p : Plan) (e : Engine Nat Nat) : Move → Option (Action Nat Nat)
  | .submit item now => some (.submit "" (p.keyOf item) item now)
  | .arm id => some (.arm id)
  | .wake id now => some (.wake id false now)
  | .resume id => some (.resume id)
  | .finish id =>
    match e.task? id with
    | some ⟨_, _, .running b⟩ => some (.finish id (backend b))
    | _ => none
  | .look ticket => some (.look ticket)

def start (p : Plan) : Except BuildFault Storm := do
  let (engine, _) ← Engine.build p.options
  return { engine }

def enter (s : Storm) : Storm :=
  { s with active := s.active + 1, peak := max s.peak (s.active + 1) }

def exit (s : Storm) : Storm := { s with active := s.active - 1 }

def note (s : Storm) : Event Nat Nat → Storm
  | .started _ => s.enter
  | _ => s

/-- The backend lets go of the batch that a move finishes, and takes up those that are started. -/
def attend (s : Storm) (m : Move) (events : List (Event Nat Nat)) : Storm :=
  events.foldl note (match m with
    | .finish _ => s.exit
    | _ => s)

def step? (p : Plan) (s : Storm) (m : Move) : Option (Storm × List (Event Nat Nat)) := do
  let (engine, events) ← s.engine.step? (← m.action? p s.engine)
  return ({ s.attend m events with engine }, events)

def run? (p : Plan) (s : Storm) : List Move → Option (Storm × List (Event Nat Nat))
  | [] => some (s, [])
  | m :: rest => do
    let (s, first) ← s.step? p m
    let (s, others) ← s.run? p rest
    return (s, first ++ others)

end Storm

end Coalesce
