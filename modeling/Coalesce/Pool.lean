import Coalesce.Error
/-! # The worker pool

A fixed number of slots. Who finds none free queues up; a slot given back goes to the longest
waiting at once, who takes it up when next looking. A cancellation is noticed before a slot is. -/
namespace Coalesce

structure Pool where
  max : Nat
  available : Nat
  queue : List Nat := []
  handed : List Nat := []
  holding : List Nat := []
deriving DecidableEq

inductive PoolAnswer where
  | cancelled
  | waiting
  | granted
deriving DecidableEq

namespace Pool

def mostSlots : Nat := UInt64.size / 8 - 1

def create? (max : Nat) : Option Pool :=
  let slots := if max = 0 then 1 else max
  if slots ≤ mostSlots then some { max := slots, available := slots } else none

def inUse (p : Pool) : Nat := p.max - p.available

/-- Gives one slot to the first in the queue, or back to the pool. -/
def release (p : Pool) : Pool :=
  match p.queue with
  | [] => { p with available := p.available + 1 }
  | i :: queue => { p with queue := queue, handed := p.handed ++ [i] }

def leave (p : Pool) (i : Nat) : Pool :=
  if i ∈ p.holding then release { p with holding := p.holding.erase i }
  else if i ∈ p.handed then release { p with handed := p.handed.erase i }
  else { p with queue := p.queue.erase i }

/-- The task `i` looks for a slot, its scope being cancelled or not. -/
def ask (p : Pool) (i : Nat) (cancelled : Bool) : Pool × PoolAnswer :=
  if cancelled then (p.leave i, .cancelled)
  else if i ∈ p.handed then
    ({ p with handed := p.handed.erase i, holding := p.holding ++ [i] }, .granted)
  else if i ∈ p.queue then (p, .waiting)
  else if p.available = 0 then ({ p with queue := p.queue ++ [i] }, .waiting)
  else ({ p with available := p.available - 1, holding := p.holding ++ [i] }, .granted)

def isReady (p : Pool) (i : Nat) (cancelled : Bool) : Bool :=
  cancelled || i ∈ p.handed || i ∉ p.queue

end Pool

end Coalesce
