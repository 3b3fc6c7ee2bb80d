import Coalesce.Storm.Run
/-! # The report of a storm -/
namespace Coalesce.Storm
open Text

structure Report where
  name : String
  requests : Nat
  failures : Nat
  batchesExecuted : Nat
  coalesced : Nat
  largestBatch : Nat
  peak : Nat
  limit : Nat
  idleFlushes : Nat
  maxTimeoutFlushes : Nat
  shutdownFlushes : Nat
deriving DecidableEq

def answer? (c : Call Nat) : Option (Except Error Nat) :=
  match c.wait with
  | .returned result => some result
  | _ => none

def answers (s : Storm) : List (Except Error Nat) := s.engine.calls.filterMap answer?

def report (p : Plan) (s : Storm) : Report :=
  let stats := s.engine.stats
  { name := s.engine.name
    requests := p.requests.toNat
    failures := (s.answers.filter fun a => !a.toBool).length
    batchesExecuted := stats.counters.completed
    coalesced := stats.counters.coalesced
    largestBatch := (s.answers.filterMap Except.toOption).foldl max 0
    peak := s.peak
    limit := stats.maxWorkers
    idleFlushes := stats.counters.idleFlushes
    maxTimeoutFlushes := stats.counters.maxTimeoutFlushes
    shutdownFlushes := stats.counters.shutdownFlushes }

def Report.lines (r : Report) (elapsed : Duration) : List String :=
  ["batcher:            " ++ r.name,
   "requests:           " ++ decimalText r.requests,
   "failures:           " ++ decimalText r.failures,
   "batches executed:   " ++ decimalText r.batchesExecuted,
   "coalesced requests: " ++ decimalText r.coalesced,
   "largest batch:      " ++ decimalText r.largestBatch,
   "peak concurrency:   " ++ decimalText r.peak ++ " (limit " ++ decimalText r.limit ++ ")",
   "flushes:            idle=" ++ decimalText r.idleFlushes ++ " max_timeout="
     ++ decimalText r.maxTimeoutFlushes ++ " shutdown=" ++ decimalText r.shutdownFlushes,
   "elapsed:            " ++ elapsed.displayRounded 2]

end Coalesce.Storm
