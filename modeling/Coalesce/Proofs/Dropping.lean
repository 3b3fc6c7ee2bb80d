import Coalesce.Proofs.Accounts
import Coalesce.Proofs.Queueing
import Coalesce.Proofs.Timers
import Coalesce.Proofs.Workers

/-! # Tasks that are dropped

A task that is dropped after it has first run takes its batch along: the batch is nowhere pending,
its callers are released, its worker slot goes to the next in line, and nothing of any other batch
is touched. A task that is dropped before it has run leaves its batch behind for ever. -/
namespace Coalesce
variable {α β : Type}

theorem getElem?_releaseAll_of_notMem {slots : List Ticket} {s : Ticket} (h : s ∉ slots)
    (calls : List (Call β)) : (releaseAll slots calls)[s]? = calls[s]? := by
  induction slots generalizing calls with
  | nil => rfl
  | cons first rest ih =>
    obtain ⟨hs, hr⟩ := not_or.mp fun hor => h (List.mem_cons.mpr hor)
    rw [releaseAll, List.foldl_cons]
    refine (ih hr _).trans ?_
    exact List.getElem?_modify_ne _ _ (Ne.symm hs)

@[simp] theorem waitAt?_releaseAll (slots : List Ticket) (calls : List (Call β)) (s : Ticket) :
    waitAt? (releaseAll slots calls) s = waitAt? calls s := by
  induction slots generalizing calls with
  | nil => rfl
  | cons first rest ih =>
    rw [releaseAll, List.foldl_cons]
    refine (ih _).trans ?_
    rw [waitAt?, List.getElem?_modify, waitAt?]
    cases calls[s]? with
    | none => rfl
    | some call => by_cases hs : first = s <;> cases hslot : call.slot <;> simp [hs, hslot]

theorem slotAt?_releaseAll_of_mem {slots : List Ticket} {s : Ticket} (hs : s ∈ slots)
    {calls : List (Call β)} (h : slotAt? calls s = some .empty) :
    slotAt? (releaseAll slots calls) s = some .released := by
  have hlt : s < (releaseAll slots calls).length := by
    rw [length_releaseAll]
    exact Engine.lt_of_slotAt? h
  have hsome : slotAt? (releaseAll slots calls) s = some (releaseAll slots calls)[s].slot := by
    rw [slotAt?, List.getElem?_eq_getElem hlt, Option.map_some]
  rcases slotAt?_of_releaseAll hsome with hold | ⟨-, hreleased⟩
  · rw [h] at hold
    exact absurd (hsome.trans hold.symm) (slotAt?_releaseAll_ne_empty hs calls)
  · rw [hsome, hreleased]

namespace Engine
variable {e m e' : Engine α β} {events new later : List (Event α β)}
  {actions more : List (Action α β)} {a : Action α β} {t : BatchTask α} {b : Batch α} {o : Options}
  {s : Ticket}

theorem Delivered.notMem_slots (h : Delivered e events) (hu : e.Unsettled b)
    (hr : slotAt? e.calls s = some .released) : s ∉ b.slots := by
  intro hs
  rw [h.empty b hu s hs] at hr
  cases hr

theorem Asked.slotAt?_of_notMem (hask : Asked e b e' new) (hs : s ∉ b.slots) :
    slotAt? e'.calls s = slotAt? e.calls s := by
  cases hask with
  | abandoned =>
    rw [settleAll_eq]
    exact slotAt?_fillAll_of_notMem (by rwa [map_fst_refusals]) e.calls
  | waiting => rfl
  | granted => rfl

/-- A step leaves a slot alone that is of no batch still to be settled. -/
theorem step_slotAt? (hs : Step e a e' new) {slot : Slot β} (h : slotAt? e.calls s = some slot)
    (hout : ∀ b, e.Unsettled b → s ∉ b.slots) : slotAt? e'.calls s = some slot := by
  cases hs with
  | aside ha =>
    rw [ha.slotAt?]
    exact h
  | joined => exact slotAt?_append h _
  | opened => exact slotAt?_append h _
  | @resumed t b ht hq =>
    have hnot := hout b (.inr ⟨t, ht, Stage.batch?_of_queued hq⟩)
    rw [(askForWorker_asked e b).slotAt?_of_notMem hnot]
    exact h
  | @finished t b outcome ht hst =>
    have hnot := hout b (.inr ⟨t, ht, Stage.batch?_of_running hst⟩)
    rw [finish_eq, settleAll_eq]
    refine Eq.trans (slotAt?_fillAll_of_notMem ?_ e.calls) h
    rwa [map_fst_shares]
  | orphaned _ _ _ hp =>
    have hm := List.mem_map_of_mem (f := Prod.snd) (pendingAs?_eq_some hp).1
    exact (slotAt?_releaseAll_of_notMem (hout _ (.inl hm)) e.calls).trans h
  | @dropped t b ht hq =>
    have hnot := hout b (.inr ⟨t, ht, Stage.batch?_of_queued hq⟩)
    exact (slotAt?_releaseAll_of_notMem hnot e.calls).trans h
  | @aborted t b ht hst =>
    have hnot := hout b (.inr ⟨t, ht, Stage.batch?_of_running hst⟩)
    exact (slotAt?_releaseAll_of_notMem hnot e.calls).trans h
  | _ => exact h

theorem Reaches.stays_released (h : Reaches o actions e events)
    (hr : slotAt? e.calls s = some .released) (hrun : e.run? more = some (e', later)) :
    slotAt? e'.calls s = some .released :=
  h.run_induction (P := fun _ m _ => slotAt? m.calls s = some .released) hr
    (fun _ _ _ _ _ _ hm hp hs => step_slotAt? (step_of_step? hs) hp
      fun _ hu => hm.delivered.notMem_slots hu hp) hrun

/-- Whoever still waits for a slot that was released learns it when looking. -/
theorem look_released (hr : slotAt? e.calls s = some .released)
    (hw : waitAt? e.calls s = some .waiting) :
    ∃ e', e.step? (.look s) = some (e', [.returned s (.error (droppedError e.name))]) := by
  obtain ⟨call, hc, hslot⟩ := Option.map_eq_some_iff.mp hr
  rw [waitAt?, hc, Option.map_some, Option.some.injEq] at hw
  refine ⟨e.setWait s (.returned (.error (droppedError e.name))), ?_⟩
  simp [step?, look, hc, hw, Wait.isWaiting, answer?, hslot]

/-- The task `t` is dropped and takes the batch `b` along. -/
structure TakesAlong (o : Options) (t : BatchTask α) (b : Batch α) (e e' : Engine α β) : Prop where
  registry : e'.registry = e.registry.filter fun p => p.2.id ≠ t.id
  tasks : e'.tasks = e.tasks.filter fun u => u.id ≠ t.id
  released : ∀ s ∈ b.slots, slotAt? e'.calls s = some .released
  others : ∀ s, s ∉ b.slots → e'.calls[s]? = e.calls[s]?
  callers : ∀ s, waitAt? e'.calls s = waitAt? e.calls s
  placeless : t.id ∉ e'.pool.served ++ e'.pool.queue
  slots : e'.pool.available + e'.pool.served.length = o.maxRequestWorkers.toNat
  line : e.pool.gains e'.pool ++ e'.pool.queue = e.pool.queue.erase t.id
  kept : ∀ i ∈ e.pool.holding, i ≠ t.id → i ∈ e'.pool.holding

theorem Sound.registry_of_holder (h : Sound e events) (ht : t ∈ e.tasks)
    (hb : t.stage.batch? = some b) : e.registry = e.registry.filter fun p => p.2.id ≠ t.id := by
  refine (List.filter_eq_self.mpr fun p hp => ?_).symm
  obtain ⟨hf, hi⟩ := h.holding t ht b hb
  have hne : p.2.id ≠ t.id := by
    intro hpt
    have hsame := h.eq_of_id (mem_everyBatch_of_registry hp)
      (List.mem_append_left _ (taken_of_flushed hf)) (hpt.trans hi.symm)
    exact h.notMem_flushed hp (hsame ▸ hf)
  simpa using hne

/-- The pool and the slots of a batch whose task is dropped. -/
theorem Reaches.takesAlong (h : Reaches o actions e events) (hu : e.Unsettled b)
    (hregistry : e'.registry = e.registry.filter fun p => p.2.id ≠ t.id)
    (htasks : e'.tasks = e.tasks.filter fun u => u.id ≠ t.id)
    (hcalls : e'.calls = releaseAll b.slots e.calls) (hpool : e'.pool = e.pool.leave t.id) :
    TakesAlong o t b e e' := by
  have hbalanced := h.staffed.pool.leave t.id
  have hmax : e.pool.max = o.maxRequestWorkers.toNat := h.settings.workers
  constructor
  case registry => exact hregistry
  case tasks => exact htasks
  case released =>
    intro s hs
    rw [hcalls]
    exact slotAt?_releaseAll_of_mem hs (h.delivered.empty b hu s hs)
  case others =>
    intro s hs
    rw [hcalls, getElem?_releaseAll_of_notMem hs]
  case callers =>
    intro s
    rw [hcalls, waitAt?_releaseAll]
  case placeless =>
    rw [hpool, h.staffed.pool.mem_line_leave]
    exact fun hin => hin.2 rfl
  case slots =>
    rw [hpool, hbalanced.length_served, Pool.max_leave, hmax]
  case line =>
    rw [hpool]
    exact h.staffed.pool.gains_leave t.id
  case kept =>
    intro i hi hne
    rw [hpool]
    exact h.staffed.pool.mem_holding_leave.mpr ⟨hi, hne⟩

theorem Reaches.dropTimer_takesAlong (h : Reaches o actions e events) (ht : t ∈ e.tasks)
    (hs : t.stage.isTiming = true) :
    ∃ b, b.id = t.id ∧ e.Unsettled b ∧ TakesAlong o t b e (e.dropTimer t).1 := by
  obtain ⟨b, hp⟩ := h.sound.timer_finds ht hs
  obtain ⟨hm, hi⟩ := pendingAs?_eq_some hp
  have hu : e.Unsettled b := .inl (List.mem_map_of_mem (f := Prod.snd) hm)
  have hdrop : (e.dropTimer t).1 = ((e.endTask t.id).removeBatch t.key).release b.slots := by
    rw [dropTimer, hp]
  refine ⟨b, hi, hu, ?_⟩
  rw [hdrop]
  refine h.takesAlong hu ?_ rfl rfl ?_
  · rw [← hi]
    exact h.sound.removeBatch_registry hm
  · exact (h.staffed.leave_of_isTiming h.sound ht hs).2.symm

/-- At whichever suspension point a task is dropped, it takes its batch along. -/
theorem Reaches.kill_takesAlong (h : Reaches o actions e events) (ht : t ∈ e.tasks)
    (hs : t.stage ≠ .spawned) :
    ∃ b, b.id = t.id ∧ e.Unsettled b ∧ TakesAlong o t b e (e.kill t).1 := by
  cases hst : t.stage with
  | spawned => exact absurd hst hs
  | checking =>
    rw [kill, hst]
    exact h.dropTimer_takesAlong ht (by simp [hst, Stage.isTiming])
  | sleeping wakeAt =>
    rw [kill, hst]
    exact h.dropTimer_takesAlong ht (by simp [hst, Stage.isTiming])
  | queued b =>
    have hheld := Stage.batch?_of_queued hst
    have hi := (h.sound.holding t ht b hheld).2
    have hu : e.Unsettled b := .inr ⟨t, ht, hheld⟩
    rw [kill, hst]
    refine ⟨b, hi, hu, h.takesAlong hu (h.sound.registry_of_holder ht hheld) rfl rfl ?_⟩
    rw [← hi]
    rfl
  | running b =>
    have hheld := Stage.batch?_of_running hst
    have hi := (h.sound.holding t ht b hheld).2
    have hu : e.Unsettled b := .inr ⟨t, ht, hheld⟩
    rw [kill, hst]
    refine ⟨b, hi, hu, h.takesAlong hu (h.sound.registry_of_holder ht hheld) ?_ rfl ?_⟩
    · rw [← hi]
      rfl
    · rw [← hi]
      rfl

/-- If no task is dropped before it first runs, every pending batch has a live timer, and a task
that is dropped at any other point takes its batch along, with nothing of any other batch: its slots
are released for good, and a caller that still waits learns it whenever it looks. -/
theorem dropped_task_takes_batch (h : Reaches o actions e events)
    (hs : Spares o (· = .spawned) actions) :
    Watched e ∧
    ∀ t ∈ e.tasks, t.stage ≠ .spawned → ∃ b e' new, b.id = t.id ∧ e.Unsettled b ∧
      e.step? (.kill t.id) = some (e', new) ∧ TakesAlong o t b e e' ∧ Watched e' ∧
      ∀ more e'' later, e'.run? more = some (e'', later) → ∀ s ∈ b.slots,
        slotAt? e''.calls s = some .released ∧
        (waitAt? e''.calls s = some .waiting →
          ∃ last, e''.step? (.look s) =
            some (last, [.returned s (.error (droppedError o.name))])) := by
  refine ⟨h.watched hs, fun t ht hst => ?_⟩
  obtain ⟨b, hi, hu, halong⟩ := h.kill_takesAlong ht hst
  have hstep : e.step? (.kill t.id) = some (e.kill t) := by simp [step?, h.sound.task?_of_mem ht]
  have hkill := h.step hstep
  refine ⟨b, _, _, hi, hu, hstep, halong, ?_, ?_⟩
  · refine step_watched (step_of_step? hstep) h.sound (h.watched hs) fun u hu' ha => ?_
    have hsame := h.sound.task_eq_of_id ht hu' (Action.kill.inj ha)
    exact hsame ▸ hst
  · intro more e'' later hrun s hsb
    have hr := hkill.stays_released (halong.released s hsb) hrun
    refine ⟨hr, fun hw => ?_⟩
    have hname : e''.name = o.name := (hkill.run hrun).settings.name
    rw [← hname]
    exact look_released hr hw

/-- A task is dropped while it looks for a worker, and a newer batch is pending under its key. -/
theorem dropped_task_takes_batch_of_newer : ∃ (e : Engine String String) (events : _)
    (t : BatchTask String), Reaches {} [.submit "t" ⟨"k"⟩ "a" ⟨0⟩, .arm 0,
      .wake 0 false ⟨1000000000⟩, .submit "u" ⟨"k"⟩ "b" ⟨1000000000⟩, .arm 1] e events ∧
    t ∈ e.tasks ∧ t.stage ≠ .spawned ∧ e.registry.map (fun p => (p.1, p.2.id)) = [(⟨"k"⟩, 1)] ∧
    ∃ b e' new, b.id = 0 ∧ e.step? (.kill 0) = some (e', new) ∧ TakesAlong {} t b e e' := by
  have h : @Reaches String String {} [.submit "t" ⟨"k"⟩ "a" ⟨0⟩, .arm 0,
      .wake 0 false ⟨1000000000⟩, .submit "u" ⟨"k"⟩ "b" ⟨1000000000⟩, .arm 1] _ _ :=
    reaches_iff_run?.mpr ⟨_, _, rfl, rfl⟩
  obtain ⟨-, hdrop⟩ := dropped_task_takes_batch h (spares_of_forall_ne (by simp))
  obtain ⟨b, e', new, hi, -, hstep, halong, -⟩ :=
    hdrop _ List.mem_cons_self (Stage.ne_of_isTiming rfl rfl).symm
  exact ⟨_, _, _, h, List.mem_cons_self, (Stage.ne_of_isTiming rfl rfl).symm, rfl, b, e', new, hi,
    hstep, halong⟩

/-- Tasks come only with batches that are opened. -/
theorem step_task_ids (hs : Step e a e' new) {u : BatchTask α} (hu : u ∈ e'.tasks) :
    (∃ t ∈ e.tasks, t.id = u.id) ∨ u.id = e.nextId := by
  have hset : ∀ {id : Nat} {stage : Stage α}, u ∈ (e.setStage id stage).tasks →
      ∃ t ∈ e.tasks, t.id = u.id := by
    intro id stage hu
    obtain ⟨t, ht, rfl⟩ := List.mem_map.mp hu
    exact ⟨t, ht, by by_cases hid : t.id = id <;> simp [hid]⟩
  have hend : ∀ {id : Nat}, u ∈ (e.endTask id).tasks → ∃ t ∈ e.tasks, t.id = u.id :=
    fun hu => ⟨u, List.mem_of_mem_filter hu, rfl⟩
  cases hs with
  | aside ha => exact .inl ⟨u, ha.sameBooks.tasks ▸ hu, rfl⟩
  | joined => exact .inl ⟨u, hu, rfl⟩
  | opened =>
    rcases List.mem_append.mp hu with hu | hu
    · exact .inl ⟨u, hu, rfl⟩
    · rw [List.mem_singleton.mp hu]
      exact .inr rfl
  | slept => exact .inl (hset hu)
  | rechecked => exact .inl (hset hu)
  | flushed => exact .inl (hset hu)
  | @resumed t b =>
    have hask := askForWorker_asked e b
    refine .inl ?_
    cases hres : e.askForWorker b with
    | mk e' new =>
      rw [hres] at hask hu
      cases hask with
      | abandoned =>
        rw [(settleAll_sameBooks _ _).tasks] at hu
        exact hend hu
      | waiting => exact hset hu
      | granted => exact hset hu
  | finished =>
    rw [finish_eq, settleAll_eq] at hu
    exact .inl (hend hu)
  | _ => exact .inl (hend hu)

structure Lost (e : Engine α β) (key : Key) (id : Nat) : Prop where
  pending : ∃ b, (key, b) ∈ e.registry ∧ b.id = id
  taskless : ∀ t ∈ e.tasks, t.id ≠ id

namespace Lost
variable {key : Key} {id : Nat}

theorem pending?_eq_some (h : Lost e key id) (hb : Sound e events) :
    ∃ b, e.pending? key = some b ∧ b.id = id := by
  obtain ⟨b, hm, hi⟩ := h.pending
  exact ⟨b, pending?_of_mem hb.keys hm, hi⟩

/-- A timer that finds its batch finds another one, under another key. -/
theorem key_ne (h : Lost e key id) (hb : Sound e events) (ht : t ∈ e.tasks)
    (hp : e.pendingAs? t.key t.id = some b) : key ≠ t.key := by
  obtain ⟨hm, hi⟩ := pendingAs?_eq_some hp
  obtain ⟨c, hc, hci⟩ := h.pending
  rintro rfl
  have hsame := List.inj_on_of_nodup_map hb.keys hm hc rfl
  exact h.taskless t ht (hi.symm.trans ((congrArg (fun p => p.2.id) hsame).trans hci))

theorem keep (h : Lost e key id) (hb : Sound e events) (hs : Step e a e' new)
    (hpending : ∃ b, (key, b) ∈ e'.registry ∧ b.id = id) : Lost e' key id := by
  refine ⟨hpending, fun u hu hi => ?_⟩
  obtain ⟨b, hm, hbi⟩ := h.pending
  rcases step_task_ids hs hu with ⟨t, ht, hti⟩ | hnext
  · exact h.taskless t ht (hti.trans hi)
  · have hlt : b.id < e.nextId := hb.id_lt (mem_everyBatch_of_registry hm)
    omega

/-- Nothing closes a batch that has lost its timer. -/
theorem step (h : Lost e key id) (hb : Sound e events) (hs : Step e a e' new) :
    Lost e' key id := by
  refine h.keep hb hs ?_
  obtain ⟨b, hm, hi⟩ := h.pending
  cases hs with
  | aside ha => exact ⟨b, ha.sameBooks.registry ▸ hm, hi⟩
  | @joined token key' request now c =>
    by_cases hk : key = key'
    · exact ⟨b.push request e.calls.length now,
        List.mem_map.mpr ⟨(key, b), hm, by simp [hk]⟩, hi⟩
    · exact ⟨b, List.mem_map.mpr ⟨(key, b), hm, by simp [hk]⟩, hi⟩
  | opened => exact ⟨b, List.mem_append_left _ hm, hi⟩
  | flushed ht _ _ hp => exact ⟨b, Keyed.mem_others.mpr ⟨hm, h.key_ne hb ht hp⟩, hi⟩
  | orphaned ht _ _ hp => exact ⟨b, Keyed.mem_others.mpr ⟨hm, h.key_ne hb ht hp⟩, hi⟩
  | @resumed t c =>
    rw [(askForWorker_asked e c).registry]
    exact ⟨b, hm, hi⟩
  | finished =>
    rw [finish_eq, settleAll_eq]
    exact ⟨b, hm, hi⟩
  | _ => exact ⟨b, hm, hi⟩

end Lost

/-- A task that is dropped before it first runs leaves its batch behind. Whatever happens after, the
batch stays pending, its slots stay empty, and every request under its key that is accepted joins
it. -/
theorem batch_stranded (h : Reaches o actions e events) (ht : t ∈ e.tasks)
    (hst : t.stage = .spawned) :
    ∃ e' new, e.step? (.kill t.id) = some (e', new) ∧
      ∀ more e'' later, e'.run? more = some (e'', later) →
        ∃ b, e''.pending? t.key = some b ∧ b.id = t.id ∧
          ∀ s ∈ b.slots, slotAt? e''.calls s = some .empty := by
  obtain ⟨b, hm, hi⟩ := h.sound.timing t ht (by rw [hst]; rfl)
  have hstep : e.step? (.kill t.id) = some (e.endTask t.id, []) := by
    simp [step?, h.sound.task?_of_mem ht, kill, hst]
  have hlost : Lost (e.endTask t.id) t.key t.id :=
    ⟨⟨b, hm, hi⟩, fun u hu => (Keyed.mem_others.mp hu).2⟩
  refine ⟨_, _, hstep, fun more e'' later hrun => ?_⟩
  have hkill := h.step hstep
  have hlast : Lost e'' t.key t.id :=
    hkill.run_induction (P := fun _ m _ => Lost m t.key t.id) hlost
      (fun _ _ _ _ _ _ hm hp hs => hp.step hm.sound (step_of_step? hs)) hrun
  have hr := hkill.run hrun
  obtain ⟨c, hp, hci⟩ := hlast.pending?_eq_some hr.sound
  refine ⟨c, hp, hci, hr.delivered.empty c (.inl ?_)⟩
  exact List.mem_map_of_mem (f := Prod.snd) (mem_registry_of_pending? hp)

/-- A task is dropped before its first run: its batch has no timer, and the next request under the
key joins it and gets no answer. -/
theorem stranded_before_first_run : ∃ (e : Engine String String) (events : _),
    Reaches {} [.submit "t" ⟨"k"⟩ "a" ⟨0⟩, .kill 0, .submit "u" ⟨"k"⟩ "b" ⟨5⟩] e events ∧
    ¬Watched e ∧ e.tasks.isEmpty = true ∧
    e.registry.map (fun p => (p.1, p.2.id, p.2.requests)) = [(⟨"k"⟩, 0, ["a", "b"])] ∧
    e.step? (.look 0) = some (e, []) ∧ e.step? (.look 1) = some (e, []) := by
  refine ⟨_, _, reaches_iff_run?.mpr ⟨_, _, rfl, rfl⟩, ?_, rfl, rfl, rfl, rfl⟩
  intro h
  obtain ⟨t, ht, -⟩ := h _ List.mem_cons_self
  cases ht

end Engine

end Coalesce
