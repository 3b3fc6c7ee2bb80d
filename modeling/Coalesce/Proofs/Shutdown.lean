import Coalesce.Proofs.Accounts
import Coalesce.Proofs.Timers
import Coalesce.Proofs.Workers

/-! # A shutdown leaves nothing behind

A shutdown cancels the engine, closes its list of tasks and returns once no task is left. Requests
are refused from the cancellation on, and every pending batch has its timer, so nothing is pending
then and nothing can come. -/
namespace Coalesce.Engine
variable {α β : Type} {e e' : Engine α β} {events new : List (Event α β)}
  {actions more : List (Action α β)} {a : Action α β} {o : Options}

/-- An engine that differs in nothing but its callers and its cancellations. -/
structure SameWork (e e' : Engine α β) : Prop where
  registry : e'.registry = e.registry
  tasks : e'.tasks = e.tasks
  nextId : e'.nextId = e.nextId
  pool : e'.pool = e.pool
  counters : e'.counters = e.counters
  slots : ∀ s, slotAt? e'.calls s = slotAt? e.calls s

theorem SameWork.refl (e : Engine α β) : SameWork e e := ⟨rfl, rfl, rfl, rfl, rfl, fun _ => rfl⟩

theorem SameWork.trans {m : Engine α β} (h : SameWork e m) (h' : SameWork m e') :
    SameWork e e' where
  registry := h'.registry.trans h.registry
  tasks := h'.tasks.trans h.tasks
  nextId := h'.nextId.trans h.nextId
  pool := h'.pool.trans h.pool
  counters := h'.counters.trans h.counters
  slots := fun s => (h'.slots s).trans (h.slots s)

theorem Aside.sameWork (h : Aside e a e' new) : SameWork e e' where
  registry := h.sameBooks.registry
  tasks := h.sameBooks.tasks
  nextId := h.sameBooks.nextId
  pool := h.pool
  counters := by cases h <;> rfl
  slots := h.slotAt?

/-- Once the engine is cancelled and has no task, nothing can happen but at its side. -/
theorem step_aside_of_tasks (hs : Step e a e' new) (hc : e.cancelled = true)
    (ht : e.tasks = []) : Aside e a e' new := by
  have hnone : ∀ t : BatchTask α, t ∉ e.tasks := by
    rw [ht]
    exact fun t => List.not_mem_nil
  cases hs with
  | aside ha => exact ha
  | joined hn => rw [hc] at hn; cases hn
  | opened hn => rw [hc] at hn; cases hn
  | _ => exact absurd ‹_› (hnone _)

theorem isDrained_iff : e.isDrained = true ↔ e.closed = true ∧ e.tasks = [] := by
  simp [isDrained]

theorem step_closed (hs : Step e a e' new) :
    e'.closed = true ↔ e.closed = true ∨ a = .close := by
  cases hs with
  | aside ha => cases ha <;> simp [setWait]
  | resumed =>
    rw [(askForWorker_asked ..).closed]
    simp
  | finished =>
    rw [finish_eq, settleAll_eq]
    simp [withCalls, endExecution, countEnd, giveBack, endTask]
  | _ =>
    simp [joinBatch, openBatch, setStage, endTask, takeBatch, removeBatch, release, endExecution,
      countEnd, giveBack]

theorem Reaches.cancelled_of_closed (h : Reaches o actions e events) (hc : e.closed = true) :
    e.cancelled = true := by
  induction h with
  | built hb =>
    obtain ⟨-, rfl⟩ := build_eq_ok hb
    cases hc
  | step hr hs ih =>
    have hstep := step_of_step? hs
    rw [step_cancelled hstep]
    rcases (step_closed hstep).mp hc with hold | rfl
    · exact .inl (ih hold)
    · cases hstep with
      | aside ha =>
        cases ha with
        | closed hcancelled => exact .inl hcancelled

/-- Nothing is pending, runs or waits, and every request that was accepted is done with. -/
structure Quiescent (o : Options) (e : Engine α β) (events : List (Event α β)) : Prop where
  drained : e.isDrained = true
  registry : e.registry = []
  inactive : e.stats.counters.active = 0
  workers : e.stats.availableWorkers = o.maxRequestWorkers.toNat ∧ e.stats.workersInUse = 0
  placeless : e.pool.queue = [] ∧ e.pool.handed = [] ∧ e.pool.holding = []
  slots : ∀ p ∈ accepted events, (∃ result, slotAt? e.calls p.1 = some (.filled result)) ∨
    slotAt? e.calls p.1 = some .released

theorem Watched.registry_of_tasks (h : Watched e) (ht : e.tasks = []) : e.registry = [] := by
  refine List.eq_nil_iff_forall_not_mem.mpr fun p hp => ?_
  obtain ⟨t, htimer, -⟩ := h p hp
  have hm := (mem_timers.mp htimer).1
  rw [ht] at hm
  cases hm

theorem Staffed.placeless (h : Staffed e) (ht : e.tasks = []) :
    e.pool.queue = [] ∧ e.pool.handed = [] ∧ e.pool.holding = [] := by
  have hwaiters : e.pool.waiters = [] := by
    refine List.eq_nil_iff_forall_not_mem.mpr fun i hi => ?_
    obtain ⟨t, hm, -⟩ := h.waiting i hi
    rw [ht] at hm
    cases hm
  have hholding : e.pool.holding = [] := by
    refine List.eq_nil_iff_forall_not_mem.mpr fun i hi => ?_
    obtain ⟨t, hm, -⟩ := (h.holding i).mp hi
    rw [ht] at hm
    cases hm
  obtain ⟨hqueue, hhanded⟩ := List.append_eq_nil_iff.mp hwaiters
  exact ⟨hqueue, hhanded, hholding⟩

/-- With no batch to be settled, no slot of an accepted request is empty. -/
theorem Accounted.slot_of_accepted (h : Accounted e events) (hc : Conserved e events)
    (hu : ∀ b, ¬e.Unsettled b) {p : Ticket × Key × α} (hp : p ∈ accepted events) :
    (∃ result, slotAt? e.calls p.1 = some (.filled result)) ∨
      slotAt? e.calls p.1 = some .released := by
  have hlt : p.1 < e.calls.length := by
    have hm : p.1 ∈ (accepted events).map Prod.fst := List.mem_map_of_mem hp
    rw [hc.tickets] at hm
    exact List.mem_range.mp hm
  have hcall : slotAt? e.calls p.1 = some e.calls[p.1].slot := by
    rw [slotAt?, List.getElem?_eq_getElem hlt, Option.map_some]
  cases hslot : e.calls[p.1].slot with
  | empty =>
    rw [hslot] at hcall
    obtain ⟨b, hb, -⟩ := h.empty p.1 hcall
    exact absurd hb (hu b)
  | filled result =>
    rw [hslot] at hcall
    exact .inl ⟨result, hcall⟩
  | released =>
    rw [hslot] at hcall
    exact .inr hcall

theorem Reaches.quiescent (h : Reaches o actions e events) (hd : e.isDrained = true)
    (hregistry : e.registry = []) : Quiescent o e events := by
  obtain ⟨-, htasks⟩ := isDrained_iff.mp hd
  obtain ⟨hqueue, hhanded, hholding⟩ := h.staffed.placeless htasks
  have hmax : e.pool.max = o.maxRequestWorkers.toNat := h.settings.workers
  have hslots := h.staffed.pool.slots
  rw [hhanded, hholding, List.length_nil] at hslots
  constructor
  case drained => exact hd
  case registry => exact hregistry
  case inactive =>
    show e.counters.active = 0
    rw [h.staffed.active, hholding]
    rfl
  case workers =>
    show e.pool.available = _ ∧ e.pool.max - e.pool.available = 0
    omega
  case placeless => exact ⟨hqueue, hhanded, hholding⟩
  case slots =>
    intro p hp
    refine h.accounted.slot_of_accepted h.conserved ?_ hp
    rintro b (hb | ⟨t, ht, -⟩)
    · rw [batches, hregistry] at hb
      cases hb
    · rw [htasks] at ht
      cases ht

theorem Reaches.stays_drained (h : Reaches o actions e events) (hd : e.isDrained = true)
    (hr : e.run? more = some (e', new)) : SameWork e e' ∧ e'.isDrained = true := by
  obtain ⟨hclosed, htasks⟩ := isDrained_iff.mp hd
  have hstays : SameWork e e' ∧ e'.closed = true := by
    refine h.run_induction (P := fun _ m _ => SameWork e m ∧ m.closed = true)
      ⟨SameWork.refl e, hclosed⟩ ?_ hr
    rintro before m sofar a m' first hm ⟨hsame, hmclosed⟩ hs
    have hcancelled := h.cancelled_of_append (h.cancelled_of_closed hclosed) hm
    have hstep := step_of_step? hs
    have haside := step_aside_of_tasks hstep hcancelled (hsame.tasks.trans htasks)
    exact ⟨hsame.trans haside.sameWork, (step_closed hstep).mpr (.inl hmclosed)⟩
  obtain ⟨hsame, hclosed'⟩ := hstays
  exact ⟨hsame, isDrained_iff.mpr ⟨hclosed', hsame.tasks.trans htasks⟩⟩

/-- When a shutdown returns, of however many that go on at once, nothing is pending, no execution is
under way, all workers are free and every accepted request is done with; and whatever steps follow
leave all of that as it is. The only task that must not be dropped is one that has not run yet. -/
theorem shutdown_quiescent (h : Reaches o actions e events)
    (hs : Spares o (· = .spawned) actions) (hd : e.isDrained = true) :
    Quiescent o e events ∧ ∀ more e' new, e.run? more = some (e', new) →
      SameWork e e' ∧ Quiescent o e' (events ++ new) := by
  have hregistry := (h.watched hs).registry_of_tasks (isDrained_iff.mp hd).2
  refine ⟨h.quiescent hd hregistry, fun more e' new hr => ?_⟩
  obtain ⟨hsame, hd'⟩ := h.stays_drained hd hr
  exact ⟨hsame, (h.run hr).quiescent hd' (hsame.registry.trans hregistry)⟩

/-- Two shutdowns while one batch is executed, one is pending and the timer of a third has not run
yet. A request that comes after them is refused. -/
theorem shutdown_quiescent_amid_work : ∃ (e e' : Engine String String) (events new : _),
    Reaches {} [.submit "t" ⟨"k"⟩ "a" ⟨0⟩, .arm 0, .wake 0 false ⟨100000000⟩, .resume 0,
      .submit "u" ⟨"k"⟩ "b" ⟨100000000⟩, .arm 1, .submit "v" ⟨"l"⟩ "c" ⟨100000000⟩, .cancel,
      .cancel, .close, .close, .arm 2, .wake 2 true ⟨100000000⟩, .resume 2,
      .finish 0 (.results [.ok "A"]), .wake 1 true ⟨100000000⟩, .resume 1] e events ∧
    e.isDrained = true ∧ e.run? [.submit "w" ⟨"k"⟩ "d" ⟨200000000⟩, .look 1] = some (e', new) ∧
    e'.registry = [] ∧ e'.nextId = 3 ∧ e'.stats.availableWorkers = 100 ∧
    slotAt? e'.calls 0 = some (.filled (.ok "A")) := by
  have h : @Reaches String String {} [.submit "t" ⟨"k"⟩ "a" ⟨0⟩, .arm 0,
      .wake 0 false ⟨100000000⟩, .resume 0, .submit "u" ⟨"k"⟩ "b" ⟨100000000⟩, .arm 1,
      .submit "v" ⟨"l"⟩ "c" ⟨100000000⟩, .cancel, .cancel, .close, .close, .arm 2,
      .wake 2 true ⟨100000000⟩, .resume 2, .finish 0 (.results [.ok "A"]),
      .wake 1 true ⟨100000000⟩, .resume 1] _ _ := reaches_iff_run?.mpr ⟨_, _, rfl, rfl⟩
  obtain ⟨hsame, hquiet⟩ := (shutdown_quiescent h (spares_of_forall_ne (by simp)) rfl).2
    [.submit "w" ⟨"k"⟩ "d" ⟨200000000⟩, .look 1] _ _ rfl
  exact ⟨_, _, _, _, h, rfl, rfl, hquiet.registry, hsame.nextId, hquiet.workers.1, hsame.slots 0⟩

end Coalesce.Engine
