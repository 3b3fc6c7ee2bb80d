import Coalesce.Scenario.World
/-! # Running a scenario -/
namespace Coalesce.Scenario

structure Report where
  time : Nat
  record : Record
  stats : List (Stats × Bool)

structure BuildFailure where
  position : Nat
  fault : BuildFault
  log : List (Nat × LogEntry)

def build : List Setup → World → Except BuildFailure World
  | [], w => .ok w
  | setup :: rest, w =>
    match Engine.build setup.options with
    | .error fault => .error ⟨w.members.length, fault, sortLog w.record.log⟩
    | .ok (engine, entries) =>
      build rest
        (entries.foldl World.logAt { w with members := w.members ++ [⟨engine, setup.grouping⟩] })

def World.report (w : World) : Report where
  time := w.now
  record := { w.record with
    calls := CallEntry.sort w.record.calls
    log := sortLog w.record.log }
  stats := w.members.map fun m => (m.engine.stats, m.engine.cancelled)

/-- The reports of acts done one after the other, the flag saying which are quiet; none if one of
them needs a runtime that is gone. -/
def runOps : World → List (Op × Bool) → Option (List Report)
  | _, [] => some []
  | w, (op, quiet) :: rest =>
    if w.allows op then do
      let w := w.perform op quiet
      let reports ← runOps w rest
      return w.report :: reports
    else none

def run (setups : List Setup) (ops : List (Op × Bool)) :
    Except BuildFailure (List (Nat × LogEntry) × Option (List Report)) := do
  let w ← build setups {}
  return (sortLog w.record.log, runOps w ops)

end Coalesce.Scenario
