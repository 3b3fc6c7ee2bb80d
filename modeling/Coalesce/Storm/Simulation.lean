import Coalesce.Storm.Run
/-! # A storm on a clock of its own

All requests come at once. From then on the clock jumps from one instant at which something is due
to the next, and every task moves as soon as it can. -/
namespace Coalesce.Storm

structure Simulation where
  storm : Storm
  now : Instant := ⟨0⟩
  started : List (Nat × Instant) := []

namespace Simulation

def act (p : Plan) (s : Simulation) (m : Move) : Simulation :=
  match s.storm.step? p m with
  | none => s
  | some (storm, events) =>
    let started := events.filterMap fun
      | .started b => some (b.id, s.now)
      | _ => none
    { s with storm, started := started ++ s.started }

/-- A task moves, and goes on for as long as it need not wait: with its batch it asks for a
worker. -/
def poll (p : Plan) (s : Simulation) (m : Move) : Simulation :=
  match m with
  | .wake id _ => act p (act p s m) (.resume id)
  | _ => act p s m

def end? (p : Plan) (s : Simulation) (id : Nat) : Option Instant := do
  (← s.started.lookup id).add? p.latency

def move? (p : Plan) (s : Simulation) (t : BatchTask Nat) : Option Move :=
  match t.stage with
  | .spawned => some (.arm t.id)
  | .checking => some (.arm t.id)
  | .sleeping wakeAt => if wakeAt.any (· ≤ s.now) then some (.wake t.id s.now) else none
  | .queued _ => if s.storm.engine.pool.handed.contains t.id then some (.resume t.id) else none
  | .running _ => if (s.end? p t.id).any (· ≤ s.now) then some (.finish t.id) else none

def due? (p : Plan) (s : Simulation) (t : BatchTask Nat) : Option Instant :=
  match t.stage with
  | .sleeping wakeAt => wakeAt
  | .running _ => s.end? p t.id
  | _ => none

def earlier (a b : Instant) : Instant := if b < a then b else a

def nextDue? (p : Plan) (s : Simulation) : Option Instant :=
  match s.storm.engine.tasks.filterMap (s.due? p) with
  | [] => none
  | first :: rest => some (rest.foldl earlier first)

def runOn (p : Plan) : Nat → Simulation → Simulation
  | 0, s => s
  | fuel + 1, s =>
    let moves := s.storm.engine.tasks.filterMap (s.move? p)
    if moves.isEmpty then
      match s.nextDue? p with
      | none => s
      | some t => runOn p fuel { s with now := t }
    else runOn p fuel (moves.foldl (poll p) s)

/-- Submits the requests, lets the tasks run out, and lets the callers look. A batch's task makes at
most four moves: it reads its deadline, wakes, takes up a slot and ends. -/
def run (p : Plan) (storm : Storm) : Simulation :=
  let items := List.range p.requests.toNat
  let submitted := items.foldl (fun s item => act p s (.submit item s.now)) { storm }
  let done := runOn p (8 * p.requests.toNat + 8) submitted
  items.foldl (fun s ticket => act p s (.look ticket)) done

end Simulation

end Coalesce.Storm
