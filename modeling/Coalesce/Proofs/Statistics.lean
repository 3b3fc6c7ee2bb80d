import Coalesce.Proofs.Prompt
import Coalesce.Proofs.Workers
import Mathlib.Algebra.GroupWithZero.Nat
import Mathlib.Algebra.Order.BigOperators.Group.List

/-! # The statistics balance

Every counter says how often something has happened, and the history says the same. So the counters
add up, and as long as no batch is lost with its task they also add up with the batches that are
pending, look for a worker or were given up. -/
namespace Coalesce

def Counters.flushesFor (c : Counters) : FlushReason → Nat
  | .idle => c.idleFlushes
  | .maxTimeout => c.maxTimeoutFlushes
  | .shutdown => c.shutdownFlushes

theorem Counters.flushesFor_countFlush (c : Counters) (reason other : FlushReason) :
    (c.countFlush reason).flushesFor other =
      c.flushesFor other + if reason = other then 1 else 0 := by
  cases reason <;> cases other <;> rfl

@[simp] theorem Counters.submitted_countFlush (c : Counters) (reason : FlushReason) :
    (c.countFlush reason).submitted = c.submitted := by
  cases reason <;> rfl

@[simp] theorem Counters.coalesced_countFlush (c : Counters) (reason : FlushReason) :
    (c.countFlush reason).coalesced = c.coalesced := by
  cases reason <;> rfl

@[simp] theorem Counters.completed_countFlush (c : Counters) (reason : FlushReason) :
    (c.countFlush reason).completed = c.completed := by
  cases reason <;> rfl

def Stage.isQueued {α : Type} : Stage α → Bool
  | .queued _ => true
  | _ => false

/-- A task that is dropped at this stage takes a batch along that no executor has seen. -/
def Stage.losesBatch {α : Type} : Stage α → Bool
  | .checking => true
  | .sleeping _ => true
  | .queued _ => true
  | _ => false

theorem Stage.isQueued_of_isTiming {α : Type} {stage : Stage α} (h : stage.isTiming = true) :
    stage.isQueued = false := by
  cases stage <;> simp_all [isTiming, isQueued]

def Event.opened? {α β : Type} : Event α β → Option Nat
  | .opened id _ => some id
  | _ => none

def opened {α β : Type} (events : List (Event α β)) : List Nat := events.filterMap Event.opened?

@[simp] theorem opened_append {α β : Type} (events new : List (Event α β)) :
    opened (events ++ new) = opened events ++ opened new := List.filterMap_append

theorem map_fst_flushes {α β : Type} (events : List (Event α β)) :
    (flushes events).map Prod.fst = flushed events := by
  rw [flushes, List.map_filterMap, flushed]
  refine List.filterMap_congr fun event _ => ?_
  cases event <;> rfl

/-- Every flush has one of three reasons. -/
theorem length_eq_countP_reasons {γ : Type} (reason : γ → FlushReason) (l : List γ) :
    l.length = l.countP (fun c => reason c = .idle) + l.countP (fun c => reason c = .maxTimeout) +
      l.countP (fun c => reason c = .shutdown) := by
  induction l with
  | nil => rfl
  | cons c l ih =>
    simp only [List.length_cons, List.countP_cons, ih]
    cases reason c <;> simp <;> omega

namespace Engine
variable {α β : Type} {e e' : Engine α β} {events new : List (Event α β)}
  {actions : List (Action α β)} {a : Action α β} {b : Batch α} {t : BatchTask α} {o : Options}

theorem overlooks_opened : Overlooks (Event.opened? : Event α β → _) := by
  constructor <;> intros <;> rfl

/-- Counters that differ in no count of requests or flushes, and of executions at most in whether
they are over. -/
structure SameCounts (c c' : Counters) : Prop where
  submitted : c'.submitted = c.submitted
  coalesced : c'.coalesced = c.coalesced
  flushes : c'.flushesFor = c.flushesFor
  executions : c'.completed + c'.active = c.completed + c.active

theorem SameCounts.refl (c : Counters) : SameCounts c c := ⟨rfl, rfl, rfl, rfl⟩

theorem sameCounts_countEnd {c : Counters} (h : 0 < c.active) : SameCounts c c.countEnd := by
  refine ⟨rfl, rfl, rfl, ?_⟩
  simp only [Counters.countEnd]
  omega

structure Tallied (e : Engine α β) (events : List (Event α β)) : Prop where
  ids : (opened events).length = e.nextId
  calls : e.counters.submitted = e.calls.length
  joins : e.counters.submitted = e.counters.coalesced + e.nextId
  reasons : ∀ reason,
    e.counters.flushesFor reason = (flushes events).countP fun p => p.2.1 = reason
  executions : e.counters.completed + e.counters.active = (started events).length

namespace Tallied

/-- What a step adds to the counts is what it adds to the history. -/
theorem grow (h : Tallied e events) (ho : e'.nextId = e.nextId + (opened new).length)
    (hs : e'.counters.submitted = e'.calls.length)
    (hc : e'.counters.submitted = e'.counters.coalesced + e'.nextId)
    (hf : ∀ reason, e'.counters.flushesFor reason =
      e.counters.flushesFor reason + (flushes new).countP fun p => p.2.1 = reason)
    (hx : e'.counters.completed + e'.counters.active =
      e.counters.completed + e.counters.active + (started new).length) :
    Tallied e' (events ++ new) := by
  constructor
  case ids => rw [opened_append, List.length_append, h.ids, ho]
  case calls => exact hs
  case joins => exact hc
  case reasons =>
    intro reason
    rw [flushes_append, List.countP_append, hf, h.reasons]
  case executions => rw [started_append, List.length_append, hx, h.executions]

theorem quiet (h : Tallied e events) (hid : e'.nextId = e.nextId)
    (hlen : e'.calls.length = e.calls.length) (hc : SameCounts e.counters e'.counters)
    (ho : opened new = []) (hf : flushes new = []) (hs : started new = []) :
    Tallied e' (events ++ new) := by
  have hcalls := h.calls
  have hjoins := h.joins
  refine h.grow ?_ ?_ ?_ (fun reason => ?_) ?_
  · simp [ho, hid]
  · rw [hc.submitted, hlen]
    exact hcalls
  · rw [hc.submitted, hc.coalesced, hid]
    exact hjoins
  · simp [hf, hc.flushes]
  · simp [hs, hc.executions]

theorem joinBatch (h : Tallied e events) (token : String) (key : Key) (request : α)
    (now : Instant) :
    Tallied (e.joinBatch token key request now).1
      (events ++ (e.joinBatch token key request now).2) := by
  have hcalls := h.calls
  have hjoins := h.joins
  refine h.grow rfl ?_ ?_ (fun reason => by cases reason <;> rfl) rfl
  · simp [Engine.joinBatch, Counters.countSubmit, hcalls]
  · simp only [Engine.joinBatch, Counters.countSubmit, if_true]
    omega

theorem openBatch (h : Tallied e events) (token : String) (key : Key) (request : α)
    (now : Instant) :
    Tallied (e.openBatch token key request now).1
      (events ++ (e.openBatch token key request now).2) := by
  have hcalls := h.calls
  have hjoins := h.joins
  refine h.grow rfl ?_ ?_ (fun reason => by cases reason <;> rfl) rfl
  · simp [Engine.openBatch, Counters.countSubmit, hcalls]
  · simp only [Engine.openBatch, Counters.countSubmit, Bool.false_eq_true, if_false]
    omega

theorem takeBatch (h : Tallied e events) (t : BatchTask α) (b : Batch α) (reason : FlushReason)
    (now : Instant) :
    Tallied (e.takeBatch t b reason) (events ++ [.flushed b reason now]) := by
  have hcount : (e.takeBatch t b reason).counters = e.counters.countFlush reason := rfl
  refine h.grow rfl ?_ ?_ (fun other => ?_) ?_
  · rw [hcount, Counters.submitted_countFlush]
    exact h.calls
  · rw [hcount, Counters.submitted_countFlush, Counters.coalesced_countFlush]
    exact h.joins
  · rw [hcount, Counters.flushesFor_countFlush]
    simp [flushes, Event.flush?, List.countP_cons]
  · rw [hcount, Counters.completed_countFlush, Counters.active_countFlush]
    rfl

theorem start (h : Tallied e events) (pool : Pool) (b : Batch α) :
    Tallied ({ e with pool := pool, counters := e.counters.countStart }.setStage b.id (.running b))
      (events ++ [.started b]) :=
  h.grow rfl h.calls h.joins (fun reason => by cases reason <;> rfl) rfl

end Tallied

theorem Aside.sameCounts (h : Aside e a e' new) : SameCounts e.counters e'.counters := by
  cases h <;> exact .refl _

theorem asked_tallied (hask : Asked e b e' new) (h : Tallied e events) :
    Tallied e' (events ++ new) := by
  cases hask with
  | abandoned =>
    rw [settleAll_eq]
    refine h.quiet rfl (length_fillAll ..) ⟨rfl, rfl, rfl, rfl⟩ ?_ ?_ ?_
    · exact overlooks_opened.settlements ..
    · exact overlooks_flushes.settlements ..
    · exact overlooks_started.settlements ..
  | waiting => exact h.quiet rfl rfl (.refl _) rfl rfl rfl
  | granted => exact h.start ..

/-- An execution that is under way is counted as active. -/
theorem Staffed.active_pos (h : Staffed e) (ht : t ∈ e.tasks) (hr : t.stage = .running b) :
    0 < e.counters.active := by
  have hmem : t.id ∈ e.pool.holding := (h.holding t.id).mpr ⟨t, ht, rfl, b, hr⟩
  rw [h.active]
  exact List.length_pos_of_mem hmem

theorem step_tallied (hs : Step e a e' new) (hstaffed : Staffed e) (h : Tallied e events) :
    Tallied e' (events ++ new) := by
  cases hs with
  | aside ha =>
    obtain ⟨-, -, hid, hlen⟩ := ha.sameBooks
    exact h.quiet hid hlen ha.sameCounts (overlooks_opened.aside ha) (overlooks_flushes.aside ha)
      (overlooks_started.aside ha)
  | joined => exact h.joinBatch ..
  | opened => exact h.openBatch ..
  | flushed => exact h.takeBatch ..
  | resumed => exact asked_tallied (askForWorker_asked ..) h
  | finished ht hr =>
    rw [finish_eq, settleAll_eq]
    have hended := sameCounts_countEnd (hstaffed.active_pos ht hr)
    refine h.quiet rfl (length_fillAll ..) ⟨rfl, rfl, rfl, hended.executions⟩ ?_ ?_ ?_
    · exact overlooks_opened.ending ..
    · exact overlooks_flushes.ending ..
    · exact overlooks_started.ending ..
  | aborted ht hr =>
    have hended := sameCounts_countEnd (hstaffed.active_pos ht hr)
    exact h.quiet rfl (length_releaseAll ..) hended rfl rfl rfl
  | orphaned => exact h.quiet rfl (length_releaseAll ..) (.refl _) rfl rfl rfl
  | dropped => exact h.quiet rfl (length_releaseAll ..) (.refl _) rfl rfl rfl
  | _ => exact h.quiet rfl rfl (.refl _) rfl rfl rfl

theorem Reaches.tallied (h : Reaches o actions e events) : Tallied e events := by
  induction h with
  | built hb =>
    obtain ⟨-, rfl⟩ := build_eq_ok hb
    refine ⟨rfl, rfl, rfl, fun reason => ?_, rfl⟩
    cases reason <;> rfl
  | step hr hs ih => exact step_tallied (step_of_step? hs) hr.staffed ih

def looking (e : Engine α β) : List (BatchTask α) := e.tasks.filter fun t => t.stage.isQueued

theorem length_looking_setStage (hb : Sound e events) (ht : t ∈ e.tasks) {stage : Stage α}
    (htasks : e'.tasks = (e.setStage t.id stage).tasks) :
    e'.looking.length + t.stage.isQueued.toNat = e.looking.length + stage.isQueued.toNat := by
  have hold := (Keyed.perm_cons_others hb.tasks ht).countP_eq fun u => u.stage.isQueued
  have hnew := (perm_setStage hb.tasks ht stage).countP_eq fun u => u.stage.isQueued
  rw [List.countP_cons] at hold hnew
  rw [looking, looking, ← List.countP_eq_length_filter, ← List.countP_eq_length_filter, htasks,
    hold, hnew]
  cases t.stage.isQueued <;> cases stage.isQueued <;> simp

theorem length_looking_endTask (hb : Sound e events) (ht : t ∈ e.tasks)
    (htasks : e'.tasks = (e.endTask t.id).tasks) :
    e'.looking.length + t.stage.isQueued.toNat = e.looking.length := by
  have hold := (Keyed.perm_cons_others hb.tasks ht).countP_eq fun u => u.stage.isQueued
  rw [List.countP_cons] at hold
  rw [looking, looking, ← List.countP_eq_length_filter, ← List.countP_eq_length_filter, htasks,
    hold]
  cases t.stage.isQueued <;> rfl

/-- Every batch that has left the registry was flushed, and every one that was flushed has been
started, was given up or looks for a worker. -/
structure Unlost (e : Engine α β) (events : List (Event α β)) : Prop where
  leaving : taken events = flushed events
  ways : (flushed events).length =
    (started events).length + (abandoned events).length + e.looking.length

namespace Unlost

theorem grow (h : Unlost e events) (ht : taken new = flushed new)
    (hl : (flushed new).length + e.looking.length =
      (started new).length + (abandoned new).length + e'.looking.length) :
    Unlost e' (events ++ new) := by
  have hways := h.ways
  constructor
  case leaving => rw [taken_append, flushed_append, h.leaving, ht]
  case ways =>
    simp only [flushed_append, started_append, abandoned_append, List.length_append]
    omega

theorem quiet (h : Unlost e events) (hl : e'.looking.length = e.looking.length)
    (ht : taken new = []) (hf : flushed new = []) (hs : started new = [])
    (ha : abandoned new = []) : Unlost e' (events ++ new) := by
  refine h.grow (ht.trans hf.symm) ?_
  simp [hf, hs, ha, hl]

/-- A timer changes its stage, and goes on timing. -/
theorem setStage (h : Unlost e events) (hb : Sound e events) (ht : t ∈ e.tasks)
    (hs : t.stage.isTiming = true) {stage : Stage α} (hstage : stage.isTiming = true) :
    Unlost (e.setStage t.id stage) (events ++ []) := by
  have hset : (e.setStage t.id stage).looking.length + _ = _ :=
    length_looking_setStage hb ht rfl
  rw [Stage.isQueued_of_isTiming hs, Stage.isQueued_of_isTiming hstage] at hset
  exact h.quiet hset rfl rfl rfl rfl

/-- A task ends that does not look for a worker. -/
theorem endTask (h : Unlost e events) (hb : Sound e events) (ht : t ∈ e.tasks)
    (hs : t.stage.isQueued = false) : Unlost (e.endTask t.id) (events ++ []) := by
  have hended : (e.endTask t.id).looking.length + _ = _ := length_looking_endTask hb ht rfl
  rw [hs] at hended
  exact h.quiet hended rfl rfl rfl rfl

/-- The execution of a batch ends, or is dropped. -/
theorem endExecution (h : Unlost e events) (hb : Sound e events) (ht : t ∈ e.tasks)
    (hr : t.stage = .running b) (htasks : e'.tasks = (e.endTask b.id).tasks)
    (htaken : taken new = []) (hf : flushed new = []) (hs : started new = [])
    (ha : abandoned new = []) : Unlost e' (events ++ new) := by
  rw [(hb.holding t ht b (Stage.batch?_of_running hr)).2] at htasks
  have hended := length_looking_endTask hb ht htasks
  rw [hr] at hended
  exact h.quiet hended htaken hf hs ha

theorem takeBatch (h : Unlost e events) (hb : Sound e events) (ht : t ∈ e.tasks)
    (hs : t.stage.isTiming = true) (b : Batch α) (reason : FlushReason) (now : Instant) :
    Unlost (e.takeBatch t b reason) (events ++ [.flushed b reason now]) := by
  have hset : (e.takeBatch t b reason).looking.length + _ = _ + (Stage.queued b).isQueued.toNat :=
    length_looking_setStage hb ht rfl
  rw [Stage.isQueued_of_isTiming hs] at hset
  refine h.grow rfl ?_
  calc 1 + e.looking.length = e.looking.length + 1 := Nat.add_comm ..
    _ = (e.takeBatch t b reason).looking.length := hset.symm
    _ = 0 + 0 + (e.takeBatch t b reason).looking.length := (Nat.zero_add _).symm

end Unlost

theorem asked_unlost (hask : Asked e b e' new) (hb : Sound e events) (h : Unlost e events)
    (ht : t ∈ e.tasks) (hq : t.stage = .queued b) : Unlost e' (events ++ new) := by
  obtain ⟨-, hi⟩ := hb.holding t ht b (Stage.batch?_of_queued hq)
  cases hask with
  | @abandoned pool =>
    have htaken : taken (.abandoned b :: settlements (refusals b.slots) e.calls) = [] :=
      overlooks_taken.settlements ..
    have hflushed : flushed (.abandoned b :: settlements (refusals b.slots) e.calls) = [] :=
      overlooks_flushed.settlements ..
    have hstarted : started (.abandoned b :: settlements (refusals b.slots) e.calls) = [] :=
      overlooks_started.settlements ..
    have habandoned : abandoned (.abandoned b :: settlements (refusals b.slots) e.calls) = [b] :=
      congrArg (b :: ·) (overlooks_abandoned.settlements ..)
    have hended : ({ e with pool := pool }.endTask t.id).looking.length + _ = _ :=
      length_looking_endTask hb ht rfl
    rw [hq] at hended
    rw [settleAll_eq, hi]
    refine h.grow (htaken.trans hflushed.symm) ?_
    rw [hflushed, hstarted, habandoned]
    exact (Nat.zero_add _).trans (hended.symm.trans (Nat.add_comm _ 1))
  | @waiting pool =>
    have hset : ({ e with pool := pool }.setStage t.id (.queued b)).looking.length + _ = _ :=
      length_looking_setStage hb ht rfl
    rw [hq] at hset
    rw [hi]
    exact h.quiet (Nat.add_right_cancel hset) rfl rfl rfl rfl
  | @granted pool =>
    have hset : ({ e with pool := pool, counters := e.counters.countStart }.setStage t.id
        (.running b)).looking.length + _ = _ := length_looking_setStage hb ht rfl
    rw [hq] at hset
    rw [hi]
    refine h.grow rfl ?_
    exact (Nat.zero_add _).trans (hset.symm.trans (Nat.add_comm _ 1))

/-- A step that drops no task together with a batch that no executor has seen loses no batch. -/
theorem step_unlost (hs : Step e a e' new) (hb : Sound e events) (h : Unlost e events)
    (hkill : ∀ t ∈ e.tasks, a = .kill t.id → t.stage.losesBatch = false) :
    Unlost e' (events ++ new) := by
  cases hs with
  | aside ha =>
    refine h.quiet ?_ (overlooks_taken.aside ha) (overlooks_flushed.aside ha)
      (overlooks_started.aside ha) (overlooks_abandoned.aside ha)
    rw [looking, ha.sameBooks.tasks, looking]
  | joined => exact h.quiet rfl rfl rfl rfl rfl
  | opened =>
    refine h.quiet ?_ rfl rfl rfl rfl
    simp [looking, openBatch, Stage.isQueued]
  | slept ht hst => exact h.setStage hb ht (Stage.isTiming_of_armed hst) rfl
  | strayed ht hst =>
    exact h.endTask hb ht (Stage.isQueued_of_isTiming (Stage.isTiming_of_armed hst))
  | rechecked ht hst => exact h.setStage hb ht (Stage.isTiming_of_sleeping hst) rfl
  | flushed ht hst => exact h.takeBatch hb ht (Stage.isTiming_of_sleeping hst) ..
  | resumed ht hq => exact asked_unlost (askForWorker_asked ..) hb h ht hq
  | finished ht hr =>
    rw [finish_eq, settleAll_eq]
    refine h.endExecution hb ht hr rfl ?_ ?_ ?_ ?_
    · exact overlooks_taken.ending ..
    · exact overlooks_flushed.ending ..
    · exact overlooks_started.ending ..
    · exact overlooks_abandoned.ending ..
  | lost ht hst => exact h.endTask hb ht (by rw [hst]; rfl)
  | @orphaned t b ht hst hne =>
    have hkept := hkill t ht rfl
    cases hs : t.stage <;> simp_all [Stage.losesBatch, Stage.isTiming]
  | vanished ht hst => exact h.endTask hb ht (Stage.isQueued_of_isTiming hst)
  | @dropped t b ht hq =>
    have hkept := hkill t ht rfl
    rw [hq] at hkept
    cases hkept
  | aborted ht hr => exact h.endExecution hb ht hr rfl rfl rfl rfl rfl

theorem Reaches.unlost (h : Reaches o actions e events)
    (hs : Spares o (fun stage => stage.losesBatch = true) actions) : Unlost e events := by
  induction h with
  | built hb =>
    obtain ⟨-, rfl⟩ := build_eq_ok hb
    exact ⟨rfl, rfl⟩
  | @step actions e events a e' new hr hstep ih =>
    refine step_unlost (step_of_step? hstep) hr.sound (ih hs.init) ?_
    rintro t ht rfl
    simpa using hs.last hr ht

theorem pendingRequests_eq (e : Engine α β) :
    e.stats.pendingRequests = (e.batches.map Batch.size).sum := by
  have hfold : ∀ registry : List (Key × Batch α), registry.foldr (fun p n => p.2.size + n) 0 =
      ((registry.map Prod.snd).map Batch.size).sum := by
    intro registry
    induction registry with
    | nil => rfl
    | cons p registry ih => rw [List.foldr_cons, ih, List.map_cons, List.map_cons, List.sum_cons]
  exact hfold e.registry

namespace Sound

/-- Every call that was accepted is for one request of one batch. -/
theorem length_calls (h : Sound e events) :
    e.calls.length = ((taken events).map Batch.size).sum + (e.batches.map Batch.size).sum := by
  have hsizes : (e.everyBatch events).map (List.length ∘ Batch.slots) =
      (e.everyBatch events).map Batch.size := by
    refine List.map_congr_left fun b hb => ?_
    exact (h.shape b hb).2
  have hlength := h.slots.length_eq
  rw [List.length_flatMap, List.length_range] at hlength
  rw [← hlength]
  refine (congrArg List.sum hsizes).trans ?_
  rw [everyBatch, List.map_append, List.sum_append]

theorem length_everyBatch (h : Sound e events) :
    (taken events).length + e.registry.length = e.nextId := by
  have hlength := h.ids.length_eq
  rw [List.length_map, List.length_range, everyBatch, List.length_append, batches,
    List.length_map] at hlength
  exact hlength

/-- A pending batch has a request. -/
theorem length_registry_le (h : Sound e events) :
    e.registry.length ≤ (e.batches.map Batch.size).sum := by
  have hone : ∀ n ∈ e.batches.map Batch.size, 1 ≤ n := by
    intro n hn
    obtain ⟨b, hb, rfl⟩ := List.mem_map.mp hn
    obtain ⟨hne, -⟩ := h.shape b (List.mem_append_right _ hb)
    exact List.length_pos_iff.mpr hne
  have hle := List.length_le_sum_of_one_le _ hone
  rwa [List.length_map, batches, List.length_map] at hle

end Sound

/-- The statistics add up, to what has happened and to what is under way. -/
structure Balanced (e : Engine α β) (events : List (Event α β)) : Prop where
  submitted : e.stats.counters.submitted = e.stats.counters.coalesced + (opened events).length
  reasons : ∀ reason,
    e.stats.counters.flushesFor reason = (flushes events).countP fun p => p.2.1 = reason
  batches : (opened events).length = e.stats.pendingBatches + e.stats.counters.idleFlushes +
    e.stats.counters.maxTimeoutFlushes + e.stats.counters.shutdownFlushes
  flushes : e.stats.counters.idleFlushes + e.stats.counters.maxTimeoutFlushes +
      e.stats.counters.shutdownFlushes =
    e.stats.counters.completed + e.stats.counters.active + e.looking.length +
      (abandoned events).length
  requests : e.stats.counters.submitted =
    e.stats.pendingRequests + ((flushed events).map Batch.size).sum
  pending : e.stats.pendingBatches ≤ e.stats.pendingRequests
  rejected : ∀ token key request now e' new,
    e.step? (.submit token key request now) = some (e', new) → .rejected key request ∈ new →
    e' = e ∧ new = [.rejected key request]

theorem Tallied.length_flushed (h : Tallied e events) :
    (flushed events).length = e.counters.idleFlushes + e.counters.maxTimeoutFlushes +
      e.counters.shutdownFlushes := by
  have hidle := h.reasons .idle
  have hmax := h.reasons .maxTimeout
  have hshutdown := h.reasons .shutdown
  have hreasons := length_eq_countP_reasons (fun p => p.2.1) (flushes events)
  rw [← map_fst_flushes, List.length_map]
  simp only [Counters.flushesFor] at hidle hmax hshutdown
  omega

theorem submit_of_rejected {token : String} {key : Key} {request : α} {now : Instant}
    (hs : e.step? (.submit token key request now) = some (e', new))
    (hr : .rejected key request ∈ new) : e' = e ∧ new = [.rejected key request] := by
  cases step_of_step? hs with
  | aside ha =>
    cases ha with
    | rejected => exact ⟨rfl, rfl⟩
  | joined => simp [joinBatch] at hr
  | opened => simp [openBatch] at hr

/-- As long as no task is dropped with a batch that no executor has seen, the statistics balance. A
request that is rejected changes none of them. -/
theorem statistics_balance (h : Reaches o actions e events)
    (hs : Spares o (fun stage => stage.losesBatch = true) actions) : Balanced e events := by
  have hsound := h.sound
  have htallied := h.tallied
  have hunlost := h.unlost hs
  have hlength := htallied.length_flushed
  constructor
  case submitted =>
    rw [htallied.ids]
    exact htallied.joins
  case reasons => exact htallied.reasons
  case batches =>
    have hall := hsound.length_everyBatch
    rw [hunlost.leaving] at hall
    rw [htallied.ids]
    show e.nextId = e.registry.length + e.counters.idleFlushes + e.counters.maxTimeoutFlushes +
      e.counters.shutdownFlushes
    omega
  case flushes =>
    have hways := hunlost.ways
    have hexecutions := htallied.executions
    show e.counters.idleFlushes + e.counters.maxTimeoutFlushes + e.counters.shutdownFlushes =
      e.counters.completed + e.counters.active + e.looking.length + (abandoned events).length
    omega
  case requests =>
    have hcalls := hsound.length_calls
    rw [hunlost.leaving, ← pendingRequests_eq, ← htallied.calls] at hcalls
    exact hcalls.trans (Nat.add_comm ..)
  case pending =>
    rw [pendingRequests_eq]
    exact hsound.length_registry_le
  case rejected => exact fun token key request now e' new hs hr => submit_of_rejected hs hr

/-- Of four requests the second joins the first. Their batch is executed, the next is given up after
a cancellation, and the last is pending. -/
theorem statistics_balance_after_cancellation : ∃ (e : Engine String String) (events : _),
    Reaches { maxRequestWorkers := 1 } [.submit "t" ⟨"k"⟩ "a" ⟨0⟩, .submit "u" ⟨"k"⟩ "b" ⟨0⟩,
      .submit "v" ⟨"l"⟩ "c" ⟨0⟩, .arm 0, .arm 1, .wake 0 false ⟨1000000000⟩, .resume 0,
      .wake 1 false ⟨1000000000⟩, .resume 1, .submit "w" ⟨"m"⟩ "d" ⟨1000000000⟩, .cancel,
      .resume 1] e events ∧
    e.stats.counters.submitted = 4 ∧ e.stats.pendingBatches = 1 ∧ e.stats.counters.active = 1 ∧
    (abandoned events).map Batch.id = [1] ∧ Balanced e events := by
  have h : @Reaches String String { maxRequestWorkers := 1 } [.submit "t" ⟨"k"⟩ "a" ⟨0⟩,
      .submit "u" ⟨"k"⟩ "b" ⟨0⟩, .submit "v" ⟨"l"⟩ "c" ⟨0⟩, .arm 0, .arm 1,
      .wake 0 false ⟨1000000000⟩, .resume 0, .wake 1 false ⟨1000000000⟩, .resume 1,
      .submit "w" ⟨"m"⟩ "d" ⟨1000000000⟩, .cancel, .resume 1] _ _ :=
    reaches_iff_run?.mpr ⟨_, _, rfl, rfl⟩
  exact ⟨_, _, h, rfl, rfl, rfl, rfl, statistics_balance h (spares_of_forall_ne (by simp))⟩

end Engine

end Coalesce
