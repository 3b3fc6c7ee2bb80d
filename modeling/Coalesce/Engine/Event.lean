import Coalesce.Engine.Basic
/-! # What an engine does, as events

Some events are logged. -/
namespace Coalesce

inductive Event (α β : Type) where
  | rejected (key : Key) (request : α)
  | accepted (ticket : Ticket) (key : Key) (request : α)
  | opened (id : Nat) (key : Key)
  | flushed (batch : Batch α) (reason : FlushReason) (now : Instant)
  | started (batch : Batch α)
  | abandoned (batch : Batch α)
  | mismatched (batch : Batch α) (actual : Nat)
  | panicked (batch : Batch α) (message : String)
  | orphaned (batch : Batch α)
  | settled (slot : Ticket) (result : Except Error β) (observed : Bool)
  | returned (ticket : Ticket) (result : Except Error β)

namespace Event
variable {α β : Type}

def refusal? : Event α β → Option Error
  | .rejected _ _ => some (.cancelled .engine)
  | _ => none

def batchFields (name : String) (key : Key) (id : Nat) : List (String × (String ⊕ Nat)) :=
  [("batcher", .inl name), ("key", .inl key.text), ("batch_id", .inr id)]

def logEntry? (name : String) : Event α β → Option LogEntry
  | .opened id key => some ⟨.debug, "opened batch", batchFields name key id⟩
  | .flushed b reason now => some ⟨.debug, "flushing batch", batchFields name b.key b.id ++
      [("size", .inr b.size), ("reason", .inl reason.name),
       ("age_ms", .inr (b.age now).millis64.toNat)]⟩
  | .abandoned b => some ⟨.debug, "batch abandoned before execution",
      batchFields name b.key b.id ++
      [("size", .inr b.size), ("error", .inl (Error.cancelled .engine).message)]⟩
  | .mismatched b actual => some ⟨.error,
      "executor returned wrong number of results; failing every request in the batch",
      batchFields name b.key b.id ++ [("expected", .inr b.size), ("actual", .inr actual)]⟩
  | .panicked b message => some ⟨.error, "batch executor panicked",
      batchFields name b.key b.id ++ [("size", .inr b.size), ("panic", .inl message)]⟩
  | .orphaned b => some ⟨.error, "batch timer exited without flushing; dropping batch",
      batchFields name b.key b.id ++ [("size", .inr b.size)]⟩
  | _ => none

end Event

def shutdownEntry (name : String) : LogEntry :=
  ⟨.info, "shutting down batcher", [("batcher", .inl name)]⟩

end Coalesce
