import Coalesce.Proofs.Awaiting
import Coalesce.Proofs.Workers

/-! # After the engine is cancelled

No request is taken in any more and no execution starts. A batch that is pending or looks for a
worker is given up at the latest when its task looks again; an execution that is under way keeps its
worker until it ends, and its callers get their shares. -/
namespace Coalesce.Engine
variable {α β : Type} {e e' : Engine α β} {events new : List (Event α β)}
  {actions more : List (Action α β)} {a : Action α β} {b : Batch α} {t : BatchTask α}
  {o : Options}

theorem Awaits.notMem_started (h : e.Awaits b) (hb : Sound e events) (htr : Traced e events) :
    b ∉ started events := by
  rcases h with hm | ⟨t, ht, hq⟩
  · obtain ⟨p, hp, rfl⟩ := List.mem_map.mp hm
    exact fun hs => hb.notMem_flushed hp (htr.startedFlushed p.2 hs)
  · exact (htr.queued t ht b hq).1

/-- A task that looks for a worker gives up its batch, wherever in the pool it is. -/
theorem askForWorker_of_cancelled (hc : e.cancelled = true) (b : Batch α) :
    e.askForWorker b =
      ((({ e with pool := e.pool.leave b.id }.endTask b.id).settleAll (refusals b.slots)).1,
        .abandoned b :: settlements (refusals b.slots) e.calls) := by
  have hask : e.pool.ask b.id e.cancelled = (e.pool.leave b.id, .cancelled) := by
    rw [hc]
    rfl
  unfold askForWorker
  rw [hask]
  simp [failAll, settleAll_eq, endTask, refusals]

theorem step_started_of_cancelled (hs : Step e a e' new) (hc : e.cancelled = true) :
    started new = [] := by
  cases hs with
  | aside ha => exact overlooks_started.aside ha
  | resumed =>
    rw [askForWorker_of_cancelled hc]
    exact overlooks_started.settlements ..
  | finished =>
    rw [finish_eq]
    exact overlooks_started.ending ..
  | _ => rfl

theorem step_pending_of_cancelled (hs : Step e a e' new) (hb : Sound e events)
    (hc : e.cancelled = true) (h : b ∈ e.batches) : b ∈ e'.batches ∨ b ∈ taken new := by
  cases hs with
  | aside ha =>
    rw [batches, ha.sameBooks.registry]
    exact .inl h
  | joined hn => rw [hc] at hn; cases hn
  | opened hn => rw [hc] at hn; cases hn
  | flushed _ _ _ hp =>
    rcases hb.mem_batches_removeBatch (pendingAs?_eq_some hp).1 h with rfl | hm
    · exact .inr List.mem_cons_self
    · exact .inl hm
  | @resumed t c =>
    rw [batches, (askForWorker_asked e c).registry]
    exact .inl h
  | finished =>
    rw [finish_eq, settleAll_eq]
    exact .inl h
  | orphaned _ _ _ hp =>
    rcases hb.mem_batches_removeBatch (pendingAs?_eq_some hp).1 h with rfl | hm
    · exact .inr List.mem_cons_self
    · exact .inl hm
  | _ => exact .inl h

/-- An execution goes on, or ends, or is dropped with its task. -/
theorem step_running (hs : Step e a e' new) (hb : Sound e events) (h : e.At (.running b)) :
    e'.At (.running b) ∨ (∃ outcome, a = .finish b.id outcome) ∨ a = .kill b.id := by
  cases hs with
  | aside ha =>
    rw [At, ha.sameBooks.tasks]
    exact .inl h
  | joined => exact .inl h
  | opened =>
    obtain ⟨t, ht, hr⟩ := h
    exact .inl ⟨t, List.mem_append_left _ ht, hr⟩
  | slept ht hst =>
    exact .inl (h.setStage hb ht (Stage.ne_of_isTiming (Stage.isTiming_of_armed hst) rfl) _)
  | strayed ht hst =>
    exact .inl (h.endTask hb ht (Stage.ne_of_isTiming (Stage.isTiming_of_armed hst) rfl))
  | rechecked ht hst =>
    exact .inl (h.setStage hb ht (Stage.ne_of_isTiming (Stage.isTiming_of_sleeping hst) rfl) _)
  | @flushed t wakeAt shutdown now c reason ht hst =>
    have htiming := Stage.isTiming_of_sleeping hst
    exact .inl (h.setStage hb ht (Stage.ne_of_isTiming htiming rfl) (.queued c))
  | resumed ht hq => exact .inl (h.asked (askForWorker_asked ..) hb ht hq (by simp [hq]))
  | @finished t c outcome ht hr =>
    have hheld := Stage.batch?_of_running hr
    by_cases hcb : c = b
    · subst hcb
      exact .inr (.inl ⟨outcome, by rw [(hb.holding t ht c hheld).2]⟩)
    · rw [finish_eq, settleAll_eq]
      exact .inl (h.endHolder hb ht hheld (by simp [hr, hcb]))
  | lost ht hst => exact .inl (h.endTask hb ht (by simp [hst]))
  | orphaned ht hst => exact .inl (h.endTask hb ht (Stage.ne_of_isTiming hst rfl))
  | vanished ht hst => exact .inl (h.endTask hb ht (Stage.ne_of_isTiming hst rfl))
  | dropped ht hq => exact .inl (h.endTask hb ht (by simp [hq]))
  | @aborted t c ht hr =>
    have hheld := Stage.batch?_of_running hr
    by_cases hcb : c = b
    · subst hcb
      exact .inr (.inr (by rw [(hb.holding t ht c hheld).2]))
    · exact .inl (h.endHolder hb ht hheld (by simp [hr, hcb]))

namespace Reaches

theorem started_of_cancelled (h : Reaches o actions e events) (hc : e.cancelled = true)
    (hr : e.run? more = some (e', new)) : started new = [] := by
  refine h.run_induction (P := fun _ _ sofar => started sofar = []) rfl ?_ hr
  intro before m sofar a m' first hm hp hs
  have hfirst := step_started_of_cancelled (step_of_step? hs) (h.cancelled_of_append hc hm)
  rw [started_append, hp, hfirst, List.nil_append]

theorem awaits_of_cancelled (h : Reaches o actions e events) (hc : e.cancelled = true)
    (hr : e.run? more = some (e', new)) (hw : e.Awaits b) :
    e'.Awaits b ∨ b ∈ abandoned new ∨ .kill b.id ∈ more := by
  refine h.run_induction (P := fun before m sofar =>
    m.Awaits b ∨ b ∈ abandoned sofar ∨ .kill b.id ∈ before) (.inl hw) ?_ hr
  intro before m sofar a m' first hm hp hs
  rw [abandoned_append]
  rcases hp with hw | ha | hk
  · have hmc := h.cancelled_of_append hc hm
    have hstep := step_of_step? hs
    cases step_advances hstep hm.sound hw with
    | awaits hw => exact .inl hw
    | grown hn =>
      rw [hmc] at hn
      cases hn
    | started hst =>
      rw [step_started_of_cancelled hstep hmc] at hst
      cases hst
    | abandoned _ ha => exact .inr (.inl (List.mem_append_right _ ha))
    | dropped ha => exact .inr (.inr (List.mem_append_right _ (List.mem_singleton.mpr ha.symm)))
  · exact .inr (.inl (List.mem_append_left _ ha))
  · exact .inr (.inr (List.mem_append_left _ hk))

theorem everyBatch_of_cancelled (h : Reaches o actions e events) (hc : e.cancelled = true)
    (hr : e.run? more = some (e', new)) (hb : b ∈ e.everyBatch events) :
    b ∈ e'.everyBatch (events ++ new) := by
  refine h.run_induction (P := fun _ m sofar => b ∈ m.everyBatch (events ++ sofar)) ?_ ?_ hr
  · rwa [List.append_nil]
  · intro before m sofar a m' first hm hp hs
    rw [← List.append_assoc, everyBatch_append]
    rcases List.mem_append.mp hp with ht | hm'
    · exact List.mem_append_left _ ht
    · refine List.mem_append_right _ (List.mem_append.mpr ?_)
      exact (step_pending_of_cancelled (step_of_step? hs) hm.sound
        (h.cancelled_of_append hc hm) hm').symm

theorem running (h : Reaches o actions e events) (hr : e.run? more = some (e', new))
    (hw : e.At (.running b)) :
    e'.At (.running b) ∨ (∃ outcome, .finish b.id outcome ∈ more) ∨ .kill b.id ∈ more := by
  refine h.run_induction (P := fun before m _ => m.At (.running b) ∨
    (∃ outcome, .finish b.id outcome ∈ before) ∨ .kill b.id ∈ before) (.inl hw) ?_ hr
  intro before m sofar a m' first hm hp hs
  rcases hp with hw | ⟨outcome, hf⟩ | hk
  · rcases step_running (step_of_step? hs) hm.sound hw with hw | ⟨outcome, rfl⟩ | rfl
    · exact .inl hw
    · exact .inr (.inl ⟨outcome, List.mem_append_right _ List.mem_cons_self⟩)
    · exact .inr (.inr (List.mem_append_right _ List.mem_cons_self))
  · exact .inr (.inl ⟨outcome, List.mem_append_left _ hf⟩)
  · exact .inr (.inr (List.mem_append_left _ hk))

/-- What is in a slot of a batch that was never started is the refusal. -/
theorem slots_of_unstarted (h : Reaches o actions e events) (hm : b ∈ e.everyBatch events)
    (hn : b ∉ started events) {s : Ticket} (hs : s ∈ b.slots) {result : Except Error β}
    (hf : slotAt? e.calls s = some (.filled result)) :
    ∀ s ∈ b.slots, slotAt? e.calls s = some (.filled (.error (.cancelled .engine))) := by
  obtain ⟨c, hc, hsc, hconcluded⟩ := h.fared.whole _ (h.accounted.filled s result hf)
  have hcb : c = b :=
    h.sound.batch_of_slot (List.mem_append_left _ (taken_of_flushed hc)) hm hsc hs
  subst hcb
  rcases hconcluded with ⟨outcome, hf⟩ | ha
  · exact absurd (h.slots_of_finish hc hf).1 hn
  · exact fun s hs => h.slotAt?_of_settled (h.fared.refused c ha (List.mem_map_of_mem hs))

end Reaches

/-- The next look for a worker gives the batch up; a slot of the pool that its task was handed goes
on to another or is free again. -/
structure GivenUp (e : Engine α β) (t : BatchTask α) (b : Batch α) (last : Engine α β)
    (new : List (Event α β)) : Prop where
  step : e.step? (.resume t.id) = some (last, new)
  abandoned : b ∈ abandoned new
  slots : ∀ s ∈ b.slots, slotAt? last.calls s = some (.filled (.error (.cancelled .engine)))
  placeless : b.id ∉ last.pool.waiters ∧ b.id ∉ last.pool.holding
  pool : last.pool.holding = e.pool.holding ∧
    last.pool.available + last.pool.handed.length = e.pool.available + e.pool.handed.length

theorem Reaches.exists_givenUp (h : Reaches o actions e events) (hc : e.cancelled = true)
    (ht : t ∈ e.tasks) (hq : t.stage = .queued b) : ∃ last new, GivenUp e t b last new := by
  have hs : e.step? (.resume t.id) = some (e.askForWorker b) := by
    simp [step?, h.sound.task?_of_mem ht, hq]
  rw [askForWorker_of_cancelled hc, settleAll_eq] at hs
  obtain ⟨-, hi⟩ := h.sound.holding t ht b (Stage.batch?_of_queued hq)
  have hbalanced := h.staffed.pool
  have hholding : (e.pool.leave b.id).holding = e.pool.holding := by
    rw [Pool.holding_leave, hi, List.erase_of_not_mem (h.staffed.notMem_holding h.sound ht hq)]
  refine ⟨_, _, hs, List.mem_cons_self, ?_, ?_, ?_⟩
  · intro s hsb
    have hlast := h.step hs
    refine hlast.slotAt?_of_settled (hlast.fared.refused b ?_ (List.mem_map_of_mem hsb))
    rw [abandoned_append]
    exact List.mem_append_right _ List.mem_cons_self
  · show b.id ∉ (e.pool.leave b.id).waiters ∧ b.id ∉ (e.pool.leave b.id).holding
    rw [hbalanced.mem_waiters_leave, hbalanced.mem_holding_leave]
    simp
  · have hslots := hbalanced.slots
    have hslots' := (hbalanced.leave b.id).slots
    rw [hholding, Pool.max_leave] at hslots'
    refine ⟨hholding, ?_⟩
    show (e.pool.leave b.id).available + (e.pool.leave b.id).handed.length = _
    omega

/-- How a cancelled engine `e` has wound down by the time it is `e'`. -/
structure WoundDown (o : Options) (e : Engine α β) (events : List (Event α β))
    (more : List (Action α β)) (e' : Engine α β) (new : List (Event α β)) : Prop where
  refused : ∀ token key request now, ∃ event,
    e'.step? (.submit token key request now) = some (e', [event]) ∧
      event.refusal? = some (.cancelled .engine)
  unstarted : started new = []
  awaiting : ∀ b, e.Awaits b → b ∉ started (events ++ new) ∧
    (e'.Awaits b ∨ b ∈ abandoned new ∨ .kill b.id ∈ more)
  settled : ∀ b, e.Awaits b → ∀ s ∈ b.slots, ∀ result,
    slotAt? e'.calls s = some (.filled result) →
      ∀ s ∈ b.slots, slotAt? e'.calls s = some (.filled (.error (.cancelled .engine)))
  givenUp : ∀ t ∈ e'.tasks, ∀ b, t.stage = .queued b → ∃ last new, GivenUp e' t b last new
  running : ∀ b, e.At (.running b) → (e'.At (.running b) ∧ b.id ∈ e'.pool.holding) ∨
    (∃ outcome, .finish b.id outcome ∈ more ∧
      ∀ p ∈ b.slots.zip (outcome.shares o.name b.slots.length),
        slotAt? e'.calls p.1 = some (.filled p.2)) ∨
    .kill b.id ∈ more

/-- However a run goes on after the engine is cancelled, requests are refused with nothing changed,
no execution starts, every batch that awaits one can only be settled by refusals, and executions
under way keep their workers until their callers get their shares. -/
theorem cancelled_winds_down (h : Reaches o actions e events) (hc : e.cancelled = true)
    (hr : e.run? more = some (e', new)) : WoundDown o e events more e' new := by
  have h' := h.run hr
  have hc' := h.cancelled_of_append hc h'
  have hunstarted := h.started_of_cancelled hc hr
  have hnever : ∀ b, e.Awaits b → b ∉ started (events ++ new) := by
    intro b hw
    rw [started_append, hunstarted, List.append_nil]
    exact hw.notMem_started h.sound h.traced
  constructor
  case refused =>
    intro token key request now
    exact ⟨.rejected key request, by simp [step?, submit, hc'], rfl⟩
  case unstarted => exact hunstarted
  case awaiting => exact fun b hw => ⟨hnever b hw, h.awaits_of_cancelled hc hr hw⟩
  case settled =>
    intro b hw s hs result hf
    have hm := h.everyBatch_of_cancelled hc hr (h.sound.mem_everyBatch hw.unsettled)
    exact h'.slots_of_unstarted hm (hnever b hw) hs hf
  case givenUp => exact fun t ht b hq => h'.exists_givenUp hc' ht hq
  case running =>
    intro b hw
    obtain ⟨t, ht, hst⟩ := hw
    obtain ⟨hflushed, -⟩ := h.sound.holding t ht b (Stage.batch?_of_running hst)
    rcases h.running hr ⟨t, ht, hst⟩ with hw | ⟨outcome, hf⟩ | hk
    · obtain ⟨u, hu, hur⟩ := hw
      obtain ⟨-, hi⟩ := h'.sound.holding u hu b (Stage.batch?_of_running hur)
      exact .inl ⟨⟨u, hu, hur⟩, (h'.staffed.holding b.id).mpr ⟨u, hu, hi.symm, b, hur⟩⟩
    · refine .inr (.inl ⟨outcome, hf, ?_⟩)
      exact (h'.slots_of_finish (flushed_mono hflushed new) (List.mem_append_right _ hf)).2
    · exact .inr (.inr hk)

/-- The engine is cancelled while one batch is executed, one queues up and one is pending. The first
ends and hands its worker to the second, which is given up all the same. -/
theorem cancelled_winds_down_after_handover : ∃ (e e' : Engine String String) (events new : _),
    Reaches { maxRequestWorkers := 1 } [.submit "t" ⟨"k"⟩ "a" ⟨0⟩, .submit "u" ⟨"l"⟩ "b" ⟨0⟩,
      .arm 0, .arm 1, .wake 0 false ⟨1000000000⟩, .resume 0, .wake 1 false ⟨1000000000⟩, .resume 1,
      .submit "v" ⟨"m"⟩ "c" ⟨1000000000⟩, .arm 2, .cancel] e events ∧ e.cancelled = true ∧
    e.run? [.finish 0 (.results [.ok "A"]), .wake 2 true ⟨1000000000⟩, .resume 1, .resume 2] =
      some (e', new) ∧
    started new = [] ∧ (abandoned new).map Batch.id = [1, 2] ∧
    slotAt? e'.calls 0 = some (.filled (.ok "A")) ∧
    slotAt? e'.calls 1 = some (.filled (.error (.cancelled .engine))) ∧
    e'.pool.available = 1 := by
  have h : @Reaches String String { maxRequestWorkers := 1 } [.submit "t" ⟨"k"⟩ "a" ⟨0⟩,
      .submit "u" ⟨"l"⟩ "b" ⟨0⟩, .arm 0, .arm 1, .wake 0 false ⟨1000000000⟩, .resume 0,
      .wake 1 false ⟨1000000000⟩, .resume 1, .submit "v" ⟨"m"⟩ "c" ⟨1000000000⟩, .arm 2, .cancel]
      _ _ := reaches_iff_run?.mpr ⟨_, _, rfl, rfl⟩
  have hdown := cancelled_winds_down h rfl (rfl : run? _ [.finish 0 (.results [.ok "A"]),
    .wake 2 true ⟨1000000000⟩, .resume 1, .resume 2] = some (_, _))
  exact ⟨_, _, _, _, h, rfl, rfl, hdown.unstarted, rfl, rfl, rfl, rfl⟩

end Coalesce.Engine
