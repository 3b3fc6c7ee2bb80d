import Coalesce.Engine.Step
import Coalesce.Key.Hasher
/-! # What a scenario is made of

A scenario builds batchers and then acts on them under a clock that only moves when it says so. The
executor does what the first request of a batch asks it to do. -/
namespace Coalesce.Scenario

/-- What an executor does with a batch: it may panic at once; else it runs for a time, or until some
time after a cancellation, and then panics or returns results, some too few or too many. -/
structure Script where
  panicEarly : Option String := none
  ms : Nat := 0
  onCancel : Option Nat := none
  panic : Option Payload := none
  drop : Nat := 0
  extra : Nat := 0

/-- A request: the caller's name for it, its content, its script, and the error that the executor
reports for it, if any. -/
structure Request where
  id : String
  item : Json
  script : Script := {}
  fail : Option Error := none

inductive Grouping where
  | byKey
  | byContent
  | oneBucket
deriving DecidableEq

structure Setup where
  options : Options
  grouping : Grouping

structure Submission where
  batcher : Nat
  token : String
  key : Key
  request : Request

def rootToken : String := "@root"

inductive Op where
  | submit (submissions : List Submission)
  | advance (ms : Nat)
  | cancel (token : String)
  | drop (id : String)
  | shutdown (batcher : Nat)
  | abort
  | look

/-- Whether an act can still be done once the runtime is gone. -/
def Op.outlivesRuntime : Op → Bool
  | .submit _ => false
  | .advance _ => false
  | .abort => false
  | _ => true

def Grouping.keyOf (g : Grouping) (s : Submission) : Key :=
  match g with
  | .byKey => s.key
  | .byContent => .ofContent s.request.item
  | .oneBucket => .oneBucket

/-- The results that an executor returns for a batch, all of them cancellations if it was
stopped. -/
def Script.results (script : Script) (stopped : Bool) (requests : List Request) :
    List (Except Error Json) :=
  let result (i : Nat) (r : Request) : Except Error Json :=
    if stopped then .error (.cancelled .engine)
    else
      match r.fail with
      | some error => .error error
      | none => .ok (.object
          [("i", .ofNat i), ("n", .ofNat requests.length), ("item", r.item)])
  let all := requests.mapIdx result
  all.take (all.length - script.drop) ++ List.replicate script.extra (.ok (.string "extra"))

end Coalesce.Scenario
