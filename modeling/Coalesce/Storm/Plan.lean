import Coalesce.Engine.Step
/-! # What a storm is made of

A storm submits a number of requests at once, numbered from zero, to a backend that takes a fixed
time for every batch and answers each request with the size of its batch. -/
namespace Coalesce.Storm

/-- A storm to run. With no keys given, every request has a key of its own. -/
structure Plan where
  requests : UInt64 := 300
  keys : UInt64 := 0
  execMs : UInt64 := 1000
  settings : Settings := {}
deriving DecidableEq

namespace Plan

def keyOf (p : Plan) (item : Nat) : Key :=
  if p.keys = 0 then .ofNat item else .ofNat (item % p.keys.toNat)

def latency (p : Plan) : Duration := .ofMillis p.execMs

def options (p : Plan) : Options := ({} : Options).withSettings p.settings

end Plan

def backend (b : Batch Nat) : Outcome Nat := .results (b.requests.map fun _ => .ok b.size)

end Coalesce.Storm
