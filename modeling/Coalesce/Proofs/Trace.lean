import Coalesce.Proofs.Frame

/-! # What a history tells

The events of a history, read for one purpose at a time: which requests were accepted, which batches
were opened, taken out of the registry, started or given up, and which slots were settled. -/
namespace Coalesce
variable {α β : Type}

namespace Event

def accepted? : Event α β → Option (Ticket × Key × α)
  | .accepted ticket key request => some (ticket, key, request)
  | _ => none

/-- A batch that leaves the registry, for a worker or with a timer that was dropped. -/
def taken? : Event α β → Option (Batch α)
  | .flushed b _ _ => some b
  | .orphaned b => some b
  | _ => none

def flushed? : Event α β → Option (Batch α)
  | .flushed b _ _ => some b
  | _ => none

def flush? : Event α β → Option (Batch α × FlushReason × Instant)
  | .flushed b reason now => some (b, reason, now)
  | _ => none

def started? : Event α β → Option (Batch α)
  | .started b => some b
  | _ => none

def abandoned? : Event α β → Option (Batch α)
  | .abandoned b => some b
  | _ => none

def settled? : Event α β → Option (Ticket × Except Error β)
  | .settled slot result _ => some (slot, result)
  | _ => none

end Event

def accepted (events : List (Event α β)) : List (Ticket × Key × α) :=
  events.filterMap Event.accepted?
def taken (events : List (Event α β)) : List (Batch α) := events.filterMap Event.taken?
def flushed (events : List (Event α β)) : List (Batch α) := events.filterMap Event.flushed?
def flushes (events : List (Event α β)) : List (Batch α × FlushReason × Instant) :=
  events.filterMap Event.flush?
def started (events : List (Event α β)) : List (Batch α) := events.filterMap Event.started?
def abandoned (events : List (Event α β)) : List (Batch α) := events.filterMap Event.abandoned?
def settled (events : List (Event α β)) : List (Ticket × Except Error β) :=
  events.filterMap Event.settled?

@[simp] theorem accepted_append (events new : List (Event α β)) :
    accepted (events ++ new) = accepted events ++ accepted new := List.filterMap_append
@[simp] theorem taken_append (events new : List (Event α β)) :
    taken (events ++ new) = taken events ++ taken new := List.filterMap_append
@[simp] theorem flushed_append (events new : List (Event α β)) :
    flushed (events ++ new) = flushed events ++ flushed new := List.filterMap_append
@[simp] theorem flushes_append (events new : List (Event α β)) :
    flushes (events ++ new) = flushes events ++ flushes new := List.filterMap_append
@[simp] theorem started_append (events new : List (Event α β)) :
    started (events ++ new) = started events ++ started new := List.filterMap_append
@[simp] theorem abandoned_append (events new : List (Event α β)) :
    abandoned (events ++ new) = abandoned events ++ abandoned new := List.filterMap_append
@[simp] theorem settled_append (events new : List (Event α β)) :
    settled (events ++ new) = settled events ++ settled new := List.filterMap_append

theorem taken_of_flushed {events : List (Event α β)} {b : Batch α} (h : b ∈ flushed events) :
    b ∈ taken events := by
  obtain ⟨event, he, hb⟩ := List.mem_filterMap.mp h
  refine List.mem_filterMap.mpr ⟨event, he, ?_⟩
  cases event <;> simp_all [Event.flushed?, Event.taken?]

theorem flushed_sublist (events : List (Event α β)) : (flushed events).Sublist (taken events) := by
  induction events with
  | nil => exact List.Sublist.refl _
  | cons event events ih =>
    cases event with
    | flushed b reason now => exact ih.cons_cons b
    | orphaned b => exact ih.cons b
    | _ => exact ih

theorem flushed_mono {events : List (Event α β)} {b : Batch α} (h : b ∈ flushed events)
    (new : List (Event α β)) : b ∈ flushed (events ++ new) := by
  rw [flushed_append]
  exact List.mem_append_left _ h

/-- A reading of events that finds nothing in what happens to slots and callers, nor in how an
execution ends. -/
structure Overlooks {γ : Type} (read : Event α β → Option γ) : Prop where
  settled : ∀ slot result observed, read (.settled slot result observed) = none
  returned : ∀ ticket result, read (.returned ticket result) = none
  rejected : ∀ key request, read (.rejected key request) = none
  mismatched : ∀ b actual, read (.mismatched b actual) = none
  panicked : ∀ b message, read (.panicked b message) = none

namespace Overlooks
variable {γ : Type} {read : Event α β → Option γ}

theorem settlements (h : Overlooks read) (results : List (Ticket × Except Error β))
    (calls : List (Call β)) : (settlements results calls).filterMap read = [] := by
  refine List.filterMap_eq_nil_iff.mpr fun event he => ?_
  obtain ⟨p, -, hp⟩ := List.mem_filterMap.mp he
  obtain ⟨w, -, rfl⟩ := Option.map_eq_some_iff.mp hp
  exact h.settled ..

theorem ending (h : Overlooks read) (outcome : Outcome β) (b : Batch α)
    (results : List (Ticket × Except Error β)) (calls : List (Call β)) :
    (outcome.notes b ++ Coalesce.settlements results calls).filterMap read = [] := by
  rw [List.filterMap_append, h.settlements, List.append_nil]
  cases outcome with
  | results items =>
    by_cases hlen : items.length = b.slots.length <;> simp [Outcome.notes, hlen, h.mismatched]
  | panic payload => simp [Outcome.notes, h.panicked]

theorem aside (h : Overlooks read) {e e' : Engine α β} {a : Action α β} {new : List (Event α β)}
    (ha : e.Aside a e' new) : new.filterMap read = [] := by
  cases ha with
  | rejected => simp [h.rejected]
  | answered => simp [h.returned]
  | _ => rfl

theorem asked (h : Overlooks read) {b : Batch α} (hs : read (.started b) = none)
    (hb : read (.abandoned b) = none) {e e' : Engine α β} {new : List (Event α β)}
    (ha : e.Asked b e' new) : new.filterMap read = [] := by
  cases ha with
  | abandoned => rw [List.filterMap_cons_none hb, h.settlements]
  | waiting => rfl
  | granted => rw [List.filterMap_cons_none hs, List.filterMap_nil]

end Overlooks

theorem overlooks_accepted : Overlooks (Event.accepted? : Event α β → _) := by
  constructor <;> intros <;> rfl

theorem overlooks_taken : Overlooks (Event.taken? : Event α β → _) := by
  constructor <;> intros <;> rfl

theorem overlooks_flushed : Overlooks (Event.flushed? : Event α β → _) := by
  constructor <;> intros <;> rfl

theorem overlooks_started : Overlooks (Event.started? : Event α β → _) := by
  constructor <;> intros <;> rfl

theorem overlooks_abandoned : Overlooks (Event.abandoned? : Event α β → _) := by
  constructor <;> intros <;> rfl

end Coalesce
