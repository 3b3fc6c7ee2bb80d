import Coalesce.Proofs.Observing
import Mathlib.Algebra.GroupWithZero.Nat

/-! # Where unobserved results come from

A result is unobserved if its caller had stopped waiting when its batch was settled. The batches of
most such results have been executed, and these number at most the requests of the executed batches.
But a batch that is given up is settled the same way, with refusals that no executor has produced,
and the refusals of callers that had stopped waiting are counted with the rest. -/
namespace Coalesce
variable {α β : Type}

def slotsOf (batches : List (Batch α)) : List Ticket := batches.flatMap Batch.slots

theorem mem_slotsOf {batches : List (Batch α)} {s : Ticket} :
    s ∈ slotsOf batches ↔ ∃ b ∈ batches, s ∈ b.slots := List.mem_flatMap

theorem length_slotsOf {batches : List (Batch α)}
    (h : ∀ b ∈ batches, b.slots.length = b.size) :
    (slotsOf batches).length = (batches.map Batch.size).sum := by
  rw [slotsOf, List.length_flatMap]
  exact congrArg List.sum (List.map_congr_left h)

theorem missed_sublist (events : List (Event α β)) :
    (missed events).Sublist ((settled events).map Prod.fst) := by
  induction events with
  | nil => exact List.Sublist.refl _
  | cons event events ih =>
    cases event with
    | settled slot result observed =>
      cases observed with
      | false => exact ih.cons_cons slot
      | true => exact ih.cons slot
    | _ => exact ih

namespace Engine
variable {e e' : Engine α β} {events new : List (Event α β)} {actions : List (Action α β)}
  {a : Action α β} {t : BatchTask α} {b : Batch α} {o : Options} {s : Ticket}

namespace Reaches

/-- What came too late came from an execution, or with a batch that was given up. -/
theorem missed_origin (h : Reaches o actions e events) (hs : s ∈ missed events) :
    s ∈ slotsOf (started events) ∨ s ∈ slotsOf (abandoned events) := by
  obtain ⟨p, hp, rfl⟩ := List.mem_map.mp ((missed_sublist events).subset hs)
  obtain ⟨b, hb, hsb, hconcluded⟩ := h.fared.whole p hp
  rcases hconcluded with ⟨outcome, hf⟩ | ha
  · exact .inl (mem_slotsOf.mpr ⟨b, (h.slots_of_finish hb hf).1, hsb⟩)
  · exact .inr (mem_slotsOf.mpr ⟨b, ha, hsb⟩)

/-- No slot is both of a batch that was executed and of one that was given up. -/
theorem notMem_abandoned (h : Reaches o actions e events) (hs : s ∈ slotsOf (started events)) :
    s ∉ slotsOf (abandoned events) := by
  intro hs'
  obtain ⟨b, hb, hsb⟩ := mem_slotsOf.mp hs
  obtain ⟨c, hc, hsc⟩ := mem_slotsOf.mp hs'
  have hbt := taken_of_flushed (h.traced.startedFlushed b hb)
  have hct := taken_of_flushed (h.traced.abandonedFlushed c hc)
  obtain rfl : b = c := h.sound.batch_of_slot (List.mem_append_left _ hbt)
    (List.mem_append_left _ hct) hsb hsc
  exact h.traced.abandonedUnstarted b hc hb

theorem length_missed (h : Reaches o actions e events) :
    (missed events).length = (missed events).countP (· ∈ slotsOf (started events)) +
      (missed events).countP (· ∈ slotsOf (abandoned events)) := by
  rw [List.length_eq_countP_add_countP (fun s => decide (s ∈ slotsOf (started events)))]
  refine congrArg _ (List.countP_congr fun s hs => ?_)
  simp only [decide_eq_true_eq]
  exact ⟨(h.missed_origin hs).resolve_left, fun ha hst => h.notMem_abandoned hst ha⟩

/-- The results of executions that came too late number at most the requests executed. -/
theorem countP_missed_started_le (h : Reaches o actions e events) :
    (missed events).countP (· ∈ slotsOf (started events)) ≤
      ((started events).map Batch.size).sum := by
  have hshape : ∀ b ∈ started events, b.slots.length = b.size := fun b hb =>
    (h.sound.shape b (List.mem_append_left _
      (taken_of_flushed (h.traced.startedFlushed b hb)))).2
  have hnodup : ((missed events).filter (· ∈ slotsOf (started events))).Nodup :=
    (h.delivered.once.sublist (missed_sublist events)).filter _
  have hsub : (missed events).filter (· ∈ slotsOf (started events)) ⊆ slotsOf (started events) :=
    fun s hs => of_decide_eq_true (List.mem_filter.mp hs).2
  rw [List.countP_eq_length_filter, ← length_slotsOf hshape]
  exact (List.subperm_of_subset hnodup hsub).length_le

end Reaches

/-- Whence the results that are counted as unobserved: from executions, which give at most one for
each request of theirs, and from batches that were given up. -/
structure UnobservedFrom (e : Engine α β) (events : List (Event α β)) : Prop where
  origins : e.counters.unobserved = (missed events).countP (· ∈ slotsOf (started events)) +
    (missed events).countP (· ∈ slotsOf (abandoned events))
  executed : (missed events).countP (· ∈ slotsOf (started events)) ≤
    ((started events).map Batch.size).sum
  uncancelled : e.cancelled = false →
    e.counters.unobserved ≤ ((started events).map Batch.size).sum
  abandoned : ∀ t ∈ e.tasks, ∀ b, t.stage = .queued b → e.cancelled = true → ∃ e' new,
    e.step? (.resume t.id) = some (e', new) ∧ abandoned new = [b] ∧ started new = [] ∧
    e'.counters.unobserved = e.counters.unobserved + b.slots.countP (isGone e.calls)

theorem Reaches.unobserved_resume (h : Reaches o actions e events) (ht : t ∈ e.tasks)
    (hq : t.stage = .queued b) (hc : e.cancelled = true) : ∃ e' new,
    e.step? (.resume t.id) = some (e', new) ∧ abandoned new = [b] ∧ started new = [] ∧
    e'.counters.unobserved = e.counters.unobserved + b.slots.countP (isGone e.calls) := by
  have hs : e.step? (.resume t.id) = some (e.askForWorker b) := by
    simp [step?, h.sound.task?_of_mem ht, hq]
  rw [askForWorker_of_cancelled hc, settleAll_eq] at hs
  refine ⟨_, _, hs, congrArg (b :: ·) (overlooks_abandoned.settlements ..),
    overlooks_started.settlements .., congrArg (e.counters.unobserved + ·) ?_⟩
  rw [refusals, List.countP_map]
  rfl

/-- The unobserved results of executions are at most their requests, so unless the engine has been
cancelled the count is bounded by them; of a batch that is given up, those are counted whose callers
had stopped waiting. -/
theorem unobserved_from_executions (h : Reaches o actions e events) : UnobservedFrom e events := by
  have horigins := h.unobserved_eq.trans h.length_missed
  constructor
  case origins => exact horigins
  case executed => exact h.countP_missed_started_le
  case uncancelled =>
    intro hc
    have hnone : abandoned events = [] := by
      refine List.eq_nil_iff_forall_not_mem.mpr fun b hb => ?_
      rw [h.cancelled_of_abandoned hb] at hc
      cases hc
    rw [horigins, hnone]
    simpa [slotsOf] using h.countP_missed_started_le
  case abandoned => exact fun t ht b hq hc => h.unobserved_resume ht hq hc

/-- A caller that has come back with a cancellation while its batch was executed: the one unobserved
result is the executor's. -/
theorem unobserved_from_execution : ∃ (e : Engine String String) (events : _),
    Reaches {} [.submit "t" ⟨"k"⟩ "a" ⟨0⟩, .arm 0, .wake 0 false ⟨1000000000⟩, .resume 0,
      .cancelToken "t", .look 0, .finish 0 (.results [.ok "A"])] e events ∧
    e.counters.unobserved = 1 ∧ e.counters.unobserved ≤ ((started events).map Batch.size).sum := by
  have h : @Reaches String String {} [.submit "t" ⟨"k"⟩ "a" ⟨0⟩, .arm 0,
      .wake 0 false ⟨1000000000⟩, .resume 0, .cancelToken "t", .look 0,
      .finish 0 (.results [.ok "A"])] _ _ := reaches_iff_run?.mpr ⟨_, _, rfl, rfl⟩
  exact ⟨_, _, h, rfl, (unobserved_from_executions h).uncancelled rfl⟩

/-- A caller leaves, and the engine is cancelled before the batch of its request is executed: one
result is counted as unobserved, and no executor was ever invoked. -/
theorem unobserved_without_execution : ∃ (e : Engine String String) (events : _),
    Reaches {} [.submit "t" ⟨"k"⟩ "a" ⟨0⟩, .cancelToken "t", .look 0, .arm 0, .cancel,
      .wake 0 true ⟨0⟩, .resume 0] e events ∧
    started events = [] ∧ (abandoned events).map Batch.requests = [["a"]] ∧
    e.counters.unobserved = 1 ∧
    ¬e.counters.unobserved ≤ ((started events).map Batch.size).sum :=
  ⟨_, _, reaches_iff_run?.mpr ⟨_, _, rfl, rfl⟩, rfl, rfl, rfl, by decide⟩

end Engine

end Coalesce
