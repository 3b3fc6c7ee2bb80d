import Coalesce.Proofs.Executions
import Coalesce.Proofs.Pool

/-! # Workers

The tasks that hold a worker slot are the ones that execute, and only tasks that look for a slot
wait for one or are handed one. -/
namespace Coalesce

def Stage.isRunning {α : Type} : Stage α → Bool
  | .running _ => true
  | _ => false

@[simp] theorem Counters.active_countFlush (c : Counters) (reason : FlushReason) :
    (c.countFlush reason).active = c.active := by
  cases reason <;> rfl

namespace Engine
variable {α β : Type} {e e' : Engine α β} {events new : List (Event α β)} {i : Nat}

def Executes (e : Engine α β) (i : Nat) : Prop :=
  ∃ t ∈ e.tasks, t.id = i ∧ ∃ b, t.stage = .running b

def Looks (e : Engine α β) (i : Nat) : Prop :=
  ∃ t ∈ e.tasks, t.id = i ∧ ∃ b, t.stage = .queued b

/-- The pool serves the tasks of the engine, and what is counted as active is what holds a slot. -/
structure Staffed (e : Engine α β) : Prop where
  pool : e.pool.Balanced
  holding : ∀ i, i ∈ e.pool.holding ↔ e.Executes i
  waiting : ∀ i ∈ e.pool.waiters, e.Looks i
  active : e.counters.active = e.pool.holding.length

namespace Sound

theorem not_executes (h : Sound e events) {t : BatchTask α} (ht : t ∈ e.tasks)
    (hs : ∀ b, t.stage ≠ .running b) : ¬e.Executes t.id := by
  rintro ⟨u, hu, hi, b, hb⟩
  rw [h.task_eq_of_id hu ht hi] at hb
  exact hs b hb

theorem not_executes_of_isTiming (h : Sound e events) {t : BatchTask α} (ht : t ∈ e.tasks)
    (hs : t.stage.isTiming = true) : ¬e.Executes t.id := by
  refine h.not_executes ht fun b hr => ?_
  rw [hr] at hs
  cases hs

theorem not_looks_of_isTiming (h : Sound e events) {t : BatchTask α} (ht : t ∈ e.tasks)
    (hs : t.stage.isTiming = true) : ¬e.Looks t.id := by
  rintro ⟨u, hu, hi, b, hq⟩
  rw [h.task_eq_of_id hu ht hi] at hq
  rw [hq] at hs
  cases hs

end Sound

theorem executes_endTask (e : Engine α β) (id : Nat) :
    (e.endTask id).Executes i ↔ e.Executes i ∧ i ≠ id := by
  constructor
  · rintro ⟨t, ht, rfl, hb⟩
    obtain ⟨ht, hne⟩ := Keyed.mem_others.mp ht
    exact ⟨⟨t, ht, rfl, hb⟩, hne⟩
  · rintro ⟨⟨t, ht, rfl, hb⟩, hne⟩
    exact ⟨t, Keyed.mem_others.mpr ⟨ht, hne⟩, rfl, hb⟩

theorem looks_endTask (h : e.Looks i) {id : Nat} (hne : i ≠ id) : (e.endTask id).Looks i := by
  obtain ⟨t, ht, rfl, hb⟩ := h
  exact ⟨t, Keyed.mem_others.mpr ⟨ht, hne⟩, rfl, hb⟩

theorem executes_setStage_of_ne {id : Nat} (hne : i ≠ id) (stage : Stage α) :
    (e.setStage id stage).Executes i ↔ e.Executes i := by
  constructor
  · rintro ⟨t, ht, rfl, hb⟩
    obtain ⟨u, hu, rfl⟩ := List.mem_map.mp ht
    by_cases hi : u.id = id
    · simp [hi] at hne
    · rw [if_neg hi] at hb ⊢
      exact ⟨u, hu, rfl, hb⟩
  · rintro ⟨t, ht, rfl, hb⟩
    exact ⟨t, mem_setStage_of_ne ht hne stage, rfl, hb⟩

theorem looks_setStage_of_ne (h : e.Looks i) {id : Nat} (hne : i ≠ id) (stage : Stage α) :
    (e.setStage id stage).Looks i := by
  obtain ⟨t, ht, rfl, hb⟩ := h
  exact ⟨t, mem_setStage_of_ne ht hne stage, rfl, hb⟩

theorem Sound.executes_setStage (h : Sound e events) {t : BatchTask α} (ht : t ∈ e.tasks)
    (hs : ¬e.Executes t.id) {stage : Stage α} (hne : ∀ b, stage ≠ .running b) :
    (e.setStage t.id stage).Executes i ↔ e.Executes i := by
  by_cases hi : i = t.id
  · subst hi
    refine iff_of_false ?_ hs
    rintro ⟨u, hu, hut, b, hb⟩
    rcases mem_setStage h.tasks ht hu with rfl | ⟨-, hut'⟩
    · exact hne b hb
    · exact hut' hut
  · exact executes_setStage_of_ne hi stage

namespace Staffed

theorem congr (h : Staffed e) (hp : e'.pool = e.pool)
    (hc : e'.counters.active = e.counters.active) (hr : ∀ i, e'.Executes i ↔ e.Executes i)
    (hq : ∀ i, e.Looks i → e'.Looks i) : Staffed e' := by
  constructor
  case pool =>
    rw [hp]
    exact h.pool
  case holding =>
    intro i
    rw [hp, hr]
    exact h.holding i
  case waiting =>
    intro i hi
    rw [hp] at hi
    exact hq i (h.waiting i hi)
  case active =>
    rw [hp, hc]
    exact h.active

theorem of_tasks (h : Staffed e) (hp : e'.pool = e.pool)
    (hc : e'.counters.active = e.counters.active) (ht : e'.tasks = e.tasks) : Staffed e' := by
  refine h.congr hp hc (fun i => ?_) (fun i hi => ?_)
  · rw [Executes, ht, Executes]
  · rw [Looks, ht]
    exact hi

theorem leave (h : Staffed e) {id : Nat} (ht : e'.tasks = (e.endTask id).tasks)
    (hp : e'.pool = e.pool.leave id)
    (hc : e'.counters.active = (e.pool.holding.erase id).length) : Staffed e' := by
  constructor
  case pool =>
    rw [hp]
    exact h.pool.leave id
  case holding =>
    intro i
    have hexecutes : e'.Executes i ↔ (e.endTask id).Executes i := by rw [Executes, ht, Executes]
    rw [hp, h.pool.mem_holding_leave, h.holding, hexecutes, executes_endTask]
  case waiting =>
    intro i hi
    rw [hp, h.pool.mem_waiters_leave] at hi
    obtain ⟨hi, hne⟩ := hi
    rw [Looks, ht]
    exact looks_endTask (h.waiting i hi) hne
  case active => rw [hp, Pool.holding_leave, hc]

theorem notMem_holding (h : Staffed e) (hb : Sound e events) {t : BatchTask α} {b : Batch α}
    (ht : t ∈ e.tasks) (hq : t.stage = .queued b) : t.id ∉ e.pool.holding := by
  rw [h.holding]
  exact hb.not_executes ht (by simp [hq])

/-- A timer has no place in the pool. -/
theorem leave_of_isTiming (h : Staffed e) (hb : Sound e events) {t : BatchTask α}
    (ht : t ∈ e.tasks) (hs : t.stage.isTiming = true) :
    t.id ∉ e.pool.holding ∧ e.pool.leave t.id = e.pool := by
  have hne : t.id ∉ e.pool.holding := by
    rw [h.holding]
    exact hb.not_executes_of_isTiming ht hs
  have hnw : t.id ∉ e.pool.waiters := fun hw =>
    hb.not_looks_of_isTiming ht hs (h.waiting t.id hw)
  exact ⟨hne, Pool.leave_eq_self hnw hne⟩

theorem endTask (h : Staffed e) (hb : Sound e events) {t : BatchTask α} (ht : t ∈ e.tasks)
    (hs : t.stage.isTiming = true) : Staffed (e.endTask t.id) := by
  obtain ⟨hne, hleave⟩ := h.leave_of_isTiming hb ht hs
  refine h.leave rfl hleave.symm ?_
  rw [List.erase_of_not_mem hne]
  exact h.active

theorem giveUp (h : Staffed e) (hb : Sound e events) {t : BatchTask α} {b : Batch α}
    (ht : t ∈ e.tasks) (hq : t.stage = .queued b) :
    Staffed { e.endTask t.id with pool := e.pool.leave t.id } := by
  refine h.leave rfl rfl ?_
  rw [List.erase_of_not_mem (h.notMem_holding hb ht hq)]
  exact h.active

theorem endExecution (h : Staffed e) (hb : Sound e events) {t : BatchTask α} {b : Batch α}
    (ht : t ∈ e.tasks) (hr : t.stage = .running b) : Staffed (e.endExecution b) := by
  obtain ⟨-, hi⟩ := hb.holding t ht b (Stage.batch?_of_running hr)
  have hmem : b.id ∈ e.pool.holding := (h.holding b.id).mpr ⟨t, ht, hi.symm, b, hr⟩
  refine h.leave rfl rfl ?_
  rw [List.length_erase_of_mem hmem, ← h.active]
  rfl

theorem setStage (h : Staffed e) (hb : Sound e events) {t : BatchTask α} (ht : t ∈ e.tasks)
    (hs : t.stage.isTiming = true) {stage : Stage α} (hne : ∀ b, stage ≠ .running b) :
    Staffed (e.setStage t.id stage) := by
  refine h.congr rfl rfl (fun i => ?_) (fun i hi => ?_)
  · exact hb.executes_setStage ht (hb.not_executes_of_isTiming ht hs) hne
  · refine looks_setStage_of_ne hi ?_ stage
    rintro rfl
    exact hb.not_looks_of_isTiming ht hs hi

theorem wait (h : Staffed e) (hb : Sound e events) {t : BatchTask α} {b : Batch α}
    (ht : t ∈ e.tasks) (hq : t.stage = .queued b) {pool : Pool}
    (ha : Pool.Answered e.pool t.id e.cancelled pool .waiting) :
    Staffed ({ e with pool := pool }.setStage t.id (.queued b)) := by
  obtain ⟨hholding, hwaiters⟩ := ha.waiting
  constructor
  case pool => exact ha.balanced h.pool (h.notMem_holding hb ht hq)
  case holding =>
    intro i
    show i ∈ pool.holding ↔ _
    rw [hholding, h.holding]
    exact (hb.executes_setStage ht (hb.not_executes ht (by simp [hq])) (by simp)).symm
  case waiting =>
    intro i hi
    by_cases hit : i = t.id
    · rw [hit]
      exact ⟨_, mem_setStage_self ht _, rfl, b, rfl⟩
    · have hold := (hwaiters i hi).resolve_right hit
      exact looks_setStage_of_ne (h.waiting i hold) hit _
  case active =>
    show e.counters.active = pool.holding.length
    rw [hholding]
    exact h.active

theorem start (h : Staffed e) (hb : Sound e events) {t : BatchTask α} {b : Batch α}
    (ht : t ∈ e.tasks) (hq : t.stage = .queued b) {pool : Pool}
    (ha : Pool.Answered e.pool t.id e.cancelled pool .granted) :
    Staffed ({ e with pool := pool, counters := e.counters.countStart }.setStage t.id
      (.running b)) := by
  obtain ⟨hholding, hwaiters⟩ := ha.granted h.pool
  constructor
  case pool => exact ha.balanced h.pool (h.notMem_holding hb ht hq)
  case holding =>
    intro i
    show i ∈ pool.holding ↔ (e.setStage t.id (.running b)).Executes i
    rw [hholding, List.mem_append, List.mem_singleton]
    by_cases hit : i = t.id
    · refine iff_of_true (.inr hit) ?_
      rw [hit]
      exact ⟨_, mem_setStage_self ht _, rfl, b, rfl⟩
    · rw [executes_setStage_of_ne hit, h.holding, or_iff_left hit]
  case waiting =>
    intro i hi
    obtain ⟨hi, hne⟩ := hwaiters i hi
    exact looks_setStage_of_ne (h.waiting i hi) hne _
  case active =>
    show e.counters.active + 1 = pool.holding.length
    rw [hholding, List.length_append, h.active]
    rfl

end Staffed

theorem asked_staffed {b : Batch α} (hask : Asked e b e' new) (hb : Sound e events)
    (h : Staffed e) {t : BatchTask α} (ht : t ∈ e.tasks) (hq : t.stage = .queued b) :
    Staffed e' := by
  obtain ⟨-, hi⟩ := hb.holding t ht b (Stage.batch?_of_queued hq)
  have hanswer := e.pool.ask_answered b.id e.cancelled
  cases hask with
  | abandoned hp =>
    rw [hp, hi] at hanswer
    obtain ⟨-, hleave⟩ := hanswer.cancelled_eq
    rw [settleAll_eq, hi]
    exact (h.giveUp hb ht hq).of_tasks hleave rfl rfl
  | waiting hp =>
    rw [hp, hi] at hanswer
    rw [hi]
    exact h.wait hb ht hq hanswer
  | granted hp =>
    rw [hp, hi] at hanswer
    rw [hi]
    exact h.start hb ht hq hanswer

theorem step_staffed {a : Action α β} (hs : Step e a e' new) (hb : Sound e events)
    (h : Staffed e) : Staffed e' := by
  cases hs with
  | aside ha =>
    obtain ⟨-, ht, -, -⟩ := ha.sameBooks
    exact h.of_tasks ha.pool ha.active ht
  | joined => exact h.of_tasks rfl rfl rfl
  | opened =>
    refine h.congr rfl rfl (fun i => ?_) (fun i hi => ?_)
    · constructor
      · rintro ⟨t, ht, hi, b, hst⟩
        rcases List.mem_append.mp ht with ht | ht
        · exact ⟨t, ht, hi, b, hst⟩
        · rw [List.mem_singleton.mp ht] at hst
          cases hst
      · rintro ⟨t, ht, hi, hst⟩
        exact ⟨t, List.mem_append_left _ ht, hi, hst⟩
    · obtain ⟨t, ht, hi, hst⟩ := hi
      exact ⟨t, List.mem_append_left _ ht, hi, hst⟩
  | slept ht hst => exact h.setStage hb ht (Stage.isTiming_of_armed hst) (by simp)
  | strayed ht hst => exact h.endTask hb ht (Stage.isTiming_of_armed hst)
  | rechecked ht hst => exact h.setStage hb ht (Stage.isTiming_of_sleeping hst) (by simp)
  | @flushed t wakeAt shutdown now b reason ht hst =>
    have hset : Staffed (e.setStage t.id (.queued b)) :=
      h.setStage hb ht (Stage.isTiming_of_sleeping hst) (by simp)
    exact hset.of_tasks rfl (Counters.active_countFlush e.counters reason) rfl
  | resumed ht hq => exact asked_staffed (askForWorker_asked ..) hb h ht hq
  | @finished t b outcome ht hr =>
    rw [finish_eq, settleAll_eq]
    exact (h.endExecution hb ht hr).of_tasks rfl rfl rfl
  | lost ht hst => exact h.endTask hb ht (by rw [hst]; rfl)
  | orphaned ht hst => exact (h.endTask hb ht hst).of_tasks rfl rfl rfl
  | vanished ht hst => exact h.endTask hb ht hst
  | @dropped t b ht hq =>
    obtain ⟨-, hi⟩ := hb.holding t ht b (Stage.batch?_of_queued hq)
    rw [hi]
    exact (h.giveUp hb ht hq).of_tasks rfl rfl rfl
  | aborted ht hr => exact (h.endExecution hb ht hr).of_tasks rfl rfl rfl

theorem fresh_staffed (o : Options) : Staffed (fresh o : Engine α β) := by
  constructor
  case pool => constructor <;> simp [fresh, Pool.waiters]
  case holding => simp [fresh, Executes]
  case waiting => simp [fresh, Pool.waiters]
  case active => rfl

theorem Reaches.staffed {o : Options} {actions : List (Action α β)}
    (h : Reaches o actions e events) : Staffed e := by
  induction h with
  | built hb =>
    obtain ⟨-, rfl⟩ := build_eq_ok hb
    exact fresh_staffed o
  | step hr hs ih => exact step_staffed (step_of_step? hs) hr.sound ih

def executing (e : Engine α β) : List (BatchTask α) := e.tasks.filter fun t => t.stage.isRunning

theorem mem_executing_ids : i ∈ e.executing.map BatchTask.id ↔ e.Executes i := by
  constructor
  · intro hi
    obtain ⟨t, ht, rfl⟩ := List.mem_map.mp hi
    obtain ⟨ht, hr⟩ := List.mem_filter.mp ht
    cases hs : t.stage with
    | running b => exact ⟨t, ht, rfl, b, hs⟩
    | _ => simp [hs, Stage.isRunning] at hr
  · rintro ⟨t, ht, rfl, b, hs⟩
    exact List.mem_map.mpr ⟨t, List.mem_filter.mpr ⟨ht, by rw [hs]; rfl⟩, rfl⟩

theorem Staffed.holding_perm (h : Staffed e) (hb : Sound e events) :
    e.pool.holding.Perm (e.executing.map BatchTask.id) := by
  have nd : (e.executing.map BatchTask.id).Nodup :=
    hb.tasks.sublist (List.filter_sublist.map BatchTask.id)
  refine (List.perm_ext_iff_of_nodup h.pool.holding_nodup nd).mpr fun i => ?_
  rw [h.holding, mem_executing_ids]

/-- No more executions are under way than slots are in use, and no more slots are in use than there
are. Every slot is free, handed to a task that looks for one, or held by one that executes. -/
theorem workers_bounded {o : Options} {actions : List (Action α β)}
    (h : Reaches o actions e events) :
    e.stats.counters.active ≤ e.stats.workersInUse ∧
    e.stats.workersInUse ≤ o.maxRequestWorkers.toNat ∧
    e.stats.availableWorkers + e.pool.handed.length + e.pool.holding.length =
      o.maxRequestWorkers.toNat ∧
    e.stats.counters.active = e.executing.length ∧
    e.pool.holding.Perm (e.executing.map BatchTask.id) ∧ ∀ i ∈ e.pool.handed, e.Looks i := by
  have hstaffed := h.staffed
  have hactive : e.counters.active = e.pool.holding.length := hstaffed.active
  have hperm := hstaffed.holding_perm h.sound
  have hmax : e.pool.max = o.maxRequestWorkers.toNat := h.settings.workers
  have hslots := hstaffed.pool.slots
  have hcount : e.pool.holding.length = e.executing.length := by
    rw [hperm.length_eq, List.length_map]
  refine ⟨?_, ?_, ?_, hactive.trans hcount, hperm, ?_⟩
  · show e.counters.active ≤ e.pool.max - e.pool.available
    omega
  · show e.pool.max - e.pool.available ≤ o.maxRequestWorkers.toNat
    omega
  · show e.pool.available + e.pool.handed.length + e.pool.holding.length = _
    omega
  · exact fun i hi => hstaffed.waiting i (Pool.mem_waiters.mpr (.inr hi))

/-- The only slot is handed on when an execution panics, and the engine is cancelled before it is
taken up: no execution is under way, and the slot is in use. -/
theorem workers_bounded_after_handover : ∃ (e : Engine String String) (events : _),
    Reaches { maxRequestWorkers := 1 } [.submit "t" ⟨"k"⟩ "a" ⟨0⟩, .submit "u" ⟨"l"⟩ "b" ⟨0⟩,
      .arm 0, .arm 1, .wake 0 false ⟨1000000000⟩, .resume 0, .wake 1 false ⟨1000000000⟩, .resume 1,
      .finish 0 (.panic .other), .cancel] e events ∧
    e.stats.counters.active = 0 ∧ e.stats.availableWorkers = 0 ∧ e.pool.holding = [] ∧
    e.stats.availableWorkers + e.pool.handed.length + e.pool.holding.length = 1 := by
  have h : @Reaches String String { maxRequestWorkers := 1 } [.submit "t" ⟨"k"⟩ "a" ⟨0⟩,
      .submit "u" ⟨"l"⟩ "b" ⟨0⟩, .arm 0, .arm 1, .wake 0 false ⟨1000000000⟩, .resume 0,
      .wake 1 false ⟨1000000000⟩, .resume 1, .finish 0 (.panic .other), .cancel] _ _ :=
    reaches_iff_run?.mpr ⟨_, _, rfl, rfl⟩
  exact ⟨_, _, h, rfl, rfl, rfl, (workers_bounded h).2.2.1⟩

/-- The engine while an execution ends: the execution has been counted, its worker slot has been
given back, and its callers have got some of the `results`, in their turn. -/
def endings (e : Engine α β) (b : Batch α) (results : List (Ticket × Except Error β)) :
    List (Engine α β) :=
  e.countEnd :: e.countEnd.giveBack b ::
    (List.range (results.length + 1)).map fun n =>
      ((e.endExecution b).settleAll (results.take n)).1

/-- Before anybody gets a result of an execution, the execution is counted as completed and its
worker slot is free; and at no time in between are more executions counted as active than slots are
in use. -/
theorem finish_in_order {o : Options} {actions : List (Action α β)}
    (h : Reaches o actions e events) {t : BatchTask α} {b : Batch α} (ht : t ∈ e.tasks)
    (hr : t.stage = .running b) (outcome : Outcome β) :
    let moments := e.endings b (b.slots.zip (outcome.shares e.name b.slots.length))
    moments.getLast? = some (e.finish b outcome).1 ∧
    ∀ m ∈ moments, m.counters.completed = e.counters.completed + 1 ∧
      m.counters.active ≤ m.stats.workersInUse ∧
      (m.calls ≠ e.calls → m.pool = e.pool.leave b.id) := by
  have hslots := h.staffed.pool.slots
  have hactive := h.staffed.active
  have hended := h.staffed.endExecution h.sound ht hr
  have hslots' := hended.pool.slots
  have hactive' := hended.active
  refine ⟨?_, fun m hm => ?_⟩
  · rw [endings, List.range_succ, List.map_append, List.map_singleton, List.take_length,
      ← List.cons_append, ← List.cons_append, List.getLast?_concat, finish_eq]
  · rcases List.mem_cons.mp hm with rfl | hm
    · refine ⟨rfl, ?_, fun hne => absurd rfl hne⟩
      show e.counters.active - 1 ≤ e.pool.max - e.pool.available
      omega
    rcases List.mem_cons.mp hm with rfl | hm
    · refine ⟨rfl, ?_, fun hne => absurd rfl hne⟩
      show (e.endExecution b).counters.active ≤
        (e.endExecution b).pool.max - (e.endExecution b).pool.available
      omega
    · obtain ⟨n, -, rfl⟩ := List.mem_map.mp hm
      rw [settleAll_eq]
      refine ⟨rfl, ?_, fun _ => rfl⟩
      show (e.endExecution b).counters.active ≤
        (e.endExecution b).pool.max - (e.endExecution b).pool.available
      omega

end Engine

end Coalesce
