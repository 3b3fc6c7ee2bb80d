import Coalesce.Proofs.Accounts

/-! # On the way to an executor

A batch awaits an execution while it is pending and while its task looks for a worker with it. That
ends with its start, with its being given up after a cancellation, or with its task. So every
request that was accepted awaits its execution, or its batch has met one of these ends. -/
namespace Coalesce.Engine
variable {α β : Type} {e e' : Engine α β} {events new : List (Event α β)}
  {actions : List (Action α β)} {a : Action α β} {b : Batch α} {t : BatchTask α}

def At (e : Engine α β) (stage : Stage α) : Prop := ∃ t ∈ e.tasks, t.stage = stage

def Awaits (e : Engine α β) (b : Batch α) : Prop := b ∈ e.batches ∨ e.At (.queued b)

namespace At
variable {stage : Stage α}

theorem setStage (h : e.At stage) (hb : Sound e events) (ht : t ∈ e.tasks)
    (hne : t.stage ≠ stage) (next : Stage α) : (e.setStage t.id next).At stage := by
  obtain ⟨u, hu, hus⟩ := h
  refine ⟨u, mem_setStage_of_ne hu (fun hi => hne ?_) next, hus⟩
  rw [← hb.task_eq_of_id hu ht hi]
  exact hus

theorem endTask (h : e.At stage) (hb : Sound e events) (ht : t ∈ e.tasks)
    (hne : t.stage ≠ stage) : (e.endTask t.id).At stage := by
  obtain ⟨u, hu, hus⟩ := h
  refine ⟨u, Keyed.mem_others.mpr ⟨hu, fun hi => hne ?_⟩, hus⟩
  rw [← hb.task_eq_of_id hu ht hi]
  exact hus

/-- The task that ends is the one with the batch. -/
theorem endHolder (h : e.At stage) (hb : Sound e events) (ht : t ∈ e.tasks)
    (hheld : t.stage.batch? = some b) (hne : t.stage ≠ stage) : (e.endTask b.id).At stage := by
  rw [(hb.holding t ht b hheld).2]
  exact h.endTask hb ht hne

/-- A task that looks for a worker leaves the others where they are. -/
theorem asked (h : e.At stage) (hask : Asked e b e' new) (hb : Sound e events) (ht : t ∈ e.tasks)
    (hq : t.stage = .queued b) (hne : t.stage ≠ stage) : e'.At stage := by
  obtain ⟨-, hi⟩ := hb.holding t ht b (Stage.batch?_of_queued hq)
  cases hask with
  | abandoned =>
    rw [settleAll_eq]
    exact h.endHolder hb ht (Stage.batch?_of_queued hq) hne
  | waiting =>
    rw [hi]
    exact h.setStage hb ht hne (.queued b)
  | granted =>
    rw [hi]
    exact h.setStage hb ht hne (.running b)

end At

theorem Awaits.unsettled (h : e.Awaits b) : e.Unsettled b := by
  refine h.imp_right ?_
  rintro ⟨t, ht, hq⟩
  exact ⟨t, ht, Stage.batch?_of_queued hq⟩

inductive Advances (e : Engine α β) (b : Batch α) (a : Action α β) (e' : Engine α β)
    (new : List (Event α β)) : Prop where
  | awaits : e'.Awaits b → Advances e b a e' new
  | grown {request : α} {slot : Ticket} {now : Instant} : e.cancelled = false →
      e'.Awaits (b.push request slot now) → Advances e b a e' new
  | started : b ∈ started new → Advances e b a e' new
  | abandoned : e.cancelled = true → b ∈ abandoned new → Advances e b a e' new
  | dropped : a = .kill b.id → Advances e b a e' new

theorem mem_batches_joinBatch {key : Key} (h : b ∈ e.batches) (token : String) (request : α)
    (now : Instant) : b ∈ (e.joinBatch token key request now).1.batches ∨
      b.push request e.calls.length now ∈ (e.joinBatch token key request now).1.batches := by
  obtain ⟨p, hp, rfl⟩ := List.mem_map.mp h
  by_cases hk : p.1 = key
  · refine .inr (List.mem_map.mpr ⟨_, List.mem_map_of_mem hp, ?_⟩)
    rw [if_pos hk]
  · refine .inl (List.mem_map.mpr ⟨_, List.mem_map_of_mem hp, ?_⟩)
    rw [if_neg hk]

theorem asked_advances {c : Batch α} (hask : Asked e c e' new) (hb : Sound e events)
    (ht : t ∈ e.tasks) (hq : t.stage = .queued c) (h : e.Awaits b) : Advances e b a e' new := by
  by_cases hcb : c = b
  · subst hcb
    cases hask with
    | abandoned hp =>
      have hanswer := e.pool.ask_answered c.id e.cancelled
      rw [hp] at hanswer
      exact .abandoned hanswer.cancelled_eq.1 List.mem_cons_self
    | waiting =>
      refine .awaits (.inr ⟨{ t with stage := .queued c }, ?_, rfl⟩)
      rw [(hb.holding t ht c (Stage.batch?_of_queued hq)).2]
      exact mem_setStage_self ht (.queued c)
    | granted => exact .started List.mem_cons_self
  · refine .awaits (h.imp (fun hm => ?_) fun hq' => hq'.asked hask hb ht hq (by simp [hq, hcb]))
    rw [batches, hask.registry]
    exact hm

theorem step_advances (hs : Step e a e' new) (hb : Sound e events) (h : e.Awaits b) :
    Advances e b a e' new := by
  cases hs with
  | aside ha =>
    obtain ⟨hr, ht, -, -⟩ := ha.sameBooks
    refine .awaits ?_
    rw [Awaits, batches, At, hr, ht]
    exact h
  | @joined token key request now _ hc =>
    rcases h with hm | hq
    · rcases mem_batches_joinBatch hm token request now with hm | hm
      · exact .awaits (.inl hm)
      · exact .grown hc (.inl hm)
    · exact .awaits (.inr hq)
  | opened =>
    rcases h with hm | ⟨t, ht, hq⟩
    · refine .awaits (.inl ?_)
      rw [batches, openBatch, List.map_append]
      exact List.mem_append_left _ hm
    · exact .awaits (.inr ⟨t, List.mem_append_left _ ht, hq⟩)
  | slept ht hst =>
    have htiming := Stage.isTiming_of_armed hst
    exact .awaits (h.imp_right fun hq => hq.setStage hb ht (Stage.ne_of_isTiming htiming rfl) _)
  | strayed ht hst =>
    have htiming := Stage.isTiming_of_armed hst
    exact .awaits (h.imp_right fun hq => hq.endTask hb ht (Stage.ne_of_isTiming htiming rfl))
  | rechecked ht hst =>
    have htiming := Stage.isTiming_of_sleeping hst
    exact .awaits (h.imp_right fun hq => hq.setStage hb ht (Stage.ne_of_isTiming htiming rfl) _)
  | @flushed t wakeAt shutdown now c reason ht hst _ hp =>
    obtain ⟨hm, -⟩ := pendingAs?_eq_some hp
    refine .awaits ?_
    rcases h with hm' | hq
    · rcases hb.mem_batches_removeBatch hm hm' with rfl | hm'
      · exact .inr ⟨_, mem_setStage_self ht (.queued b), rfl⟩
      · exact .inl hm'
    · have htiming := Stage.isTiming_of_sleeping hst
      exact .inr (hq.setStage hb ht (Stage.ne_of_isTiming htiming rfl) (.queued c))
  | resumed ht hq => exact asked_advances (askForWorker_asked ..) hb ht hq h
  | @finished t c outcome ht hr =>
    rw [finish_eq, settleAll_eq]
    refine .awaits (h.imp_right fun hq => ?_)
    exact hq.endHolder hb ht (Stage.batch?_of_running hr) (by simp [hr])
  | lost ht hst => exact .awaits (h.imp_right fun hq => hq.endTask hb ht (by simp [hst]))
  | @orphaned t c ht hst _ hp =>
    obtain ⟨hm, hi⟩ := pendingAs?_eq_some hp
    rcases h with hm' | hq
    · rcases hb.mem_batches_removeBatch hm hm' with rfl | hm'
      · exact .dropped (by rw [hi])
      · exact .awaits (.inl hm')
    · exact .awaits (.inr (hq.endTask hb ht (Stage.ne_of_isTiming hst rfl)))
  | vanished ht hst =>
    exact .awaits (h.imp_right fun hq => hq.endTask hb ht (Stage.ne_of_isTiming hst rfl))
  | @dropped t c ht hq =>
    obtain ⟨-, hi⟩ := hb.holding t ht c (Stage.batch?_of_queued hq)
    by_cases hcb : c = b
    · subst hcb
      exact .dropped (by rw [hi])
    · exact .awaits (h.imp_right fun hq' => hq'.endTask hb ht (by simp [hq, hcb]))
  | aborted ht hr =>
    refine .awaits (h.imp_right fun hq => ?_)
    exact hq.endHolder hb ht (Stage.batch?_of_running hr) (by simp [hr])

/-- How a request fares that was accepted, on the way to an executor. -/
inductive Attended (e : Engine α β) (actions : List (Action α β)) (events : List (Event α β))
    (entry : Ticket × α) : Prop where
  | awaits {b : Batch α} : e.Awaits b → entry ∈ b.entries → Attended e actions events entry
  | started {b : Batch α} : b ∈ started events → entry ∈ b.entries →
      Attended e actions events entry
  | cancelled : .cancel ∈ actions → Attended e actions events entry
  | dropped {b : Batch α} : .kill b.id ∈ actions → entry ∈ b.entries →
      Attended e actions events entry

theorem Attended.step {entry : Ticket × α} (h : Attended e actions events entry)
    (hs : Step e a e' new) (hb : Sound e events) (hc : e.cancelled = true → .cancel ∈ actions) :
    Attended e' (actions ++ [a]) (events ++ new) entry := by
  cases h with
  | @awaits b hw hm =>
    cases step_advances hs hb hw with
    | awaits hw => exact .awaits hw hm
    | @grown request slot now _ hw' =>
      refine .awaits hw' ?_
      rw [Batch.entries_push (hb.shape b (hb.mem_everyBatch hw.unsettled)).2]
      exact List.mem_append_left _ hm
    | started hst =>
      refine .started ?_ hm
      rw [started_append]
      exact List.mem_append_right _ hst
    | abandoned hcancelled => exact .cancelled (List.mem_append_left _ (hc hcancelled))
    | dropped ha => exact .dropped (List.mem_append_right _ (List.mem_singleton.mpr ha.symm)) hm
  | started hst hm =>
    refine .started ?_ hm
    rw [started_append]
    exact List.mem_append_left _ hst
  | cancelled hcancel => exact .cancelled (List.mem_append_left _ hcancel)
  | dropped hk hm => exact .dropped (List.mem_append_left _ hk) hm

/-- A request that is accepted is put into the batch under its key. -/
theorem step_enters (hs : Step e a e' new) (hb : Sound e events) {p : Ticket × Key × α}
    (hp : p ∈ accepted new) :
    ∃ b, e'.pending? p.2.1 = some b ∧ (p.1, p.2.2) ∈ b.entries := by
  cases hs with
  | aside ha =>
    rw [show accepted new = [] from overlooks_accepted.aside ha] at hp
    cases hp
  | @joined token key request now b _ hpending =>
    rw [List.mem_singleton.mp hp]
    have hm : b ∈ e.everyBatch events :=
      mem_everyBatch_of_registry (mem_registry_of_pending? hpending)
    refine ⟨b.push request e.calls.length now, ?_, ?_⟩
    · rw [pending?_joinBatch, if_pos rfl, hpending]
      rfl
    · rw [Batch.entries_push (hb.shape b hm).2]
      exact List.mem_append_right _ List.mem_cons_self
  | @opened token key request now _ hpending =>
    rw [List.mem_singleton.mp hp]
    refine ⟨_, (pending?_openBatch hpending ..).trans (if_pos rfl), List.mem_cons_self⟩
  | resumed =>
    rw [show accepted _ = [] from overlooks_accepted.asked rfl rfl (askForWorker_asked ..)] at hp
    cases hp
  | finished =>
    rw [finish_eq, show accepted _ = [] from overlooks_accepted.ending ..] at hp
    cases hp
  | _ => cases hp

theorem Reaches.attended {o : Options} (h : Reaches o actions e events) {p : Ticket × Key × α}
    (hp : p ∈ accepted events) : Attended e actions events (p.1, p.2.2) := by
  induction h with
  | built => cases hp
  | step hr hs ih =>
    have hstep := step_of_step? hs
    rw [accepted_append] at hp
    rcases List.mem_append.mp hp with hp | hp
    · exact (ih hp).step hstep hr.sound hr.cancelled_iff.mp
    · obtain ⟨b, hpending, hm⟩ := step_enters hstep hr.sound hp
      exact .awaits (.inl (List.mem_map_of_mem (mem_registry_of_pending? hpending))) hm

end Coalesce.Engine
