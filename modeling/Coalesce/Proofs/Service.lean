import Coalesce.Proofs.Admission
import Coalesce.Proofs.Queueing
import Coalesce.Proofs.Workers

/-! # Worker slots are kept busy and given out in turn

A batch waits for a worker only while every slot is in use. Where a task that takes its batch out of
the registry asks for a slot at once, as it does in a single poll, slots are given out in the order
in which batches are flushed. -/
namespace Coalesce.Engine
variable {α β : Type} {e m e' : Engine α β} {events new first : List (Event α β)}
  {actions : List (Action α β)} {a : Action α β} {t : BatchTask α} {b : Batch α} {o : Options}
  {i : Nat}

def unfinished (e : Engine α β) : List (BatchTask α) :=
  e.tasks.filter fun t => t.stage.batch?.isSome

def Waits (e : Engine α β) (t : BatchTask α) : Prop :=
  (∃ b, t.stage = .queued b) ∧
    (t.id ∈ e.pool.queue ∨ (e.pool.ask t.id e.cancelled).2 = .waiting)

theorem Staffed.mem_unfinished_ids (h : Staffed e) (hi : i ∈ e.pool.served) :
    i ∈ e.unfinished.map BatchTask.id := by
  rcases Pool.mem_served.mp hi with hi | hi
  · obtain ⟨t, ht, rfl, b, hq⟩ := h.waiting i (Pool.mem_waiters.mpr (.inr hi))
    exact List.mem_map_of_mem (List.mem_filter.mpr ⟨ht, by simp [hq, Stage.batch?]⟩)
  · obtain ⟨t, ht, rfl, b, hr⟩ := (h.holding i).mp hi
    exact List.mem_map_of_mem (List.mem_filter.mpr ⟨ht, by simp [hr, Stage.batch?]⟩)

namespace Waits

theorem unserved (h : e.Waits t) (hb : Sound e events) (hst : Staffed e) (ht : t ∈ e.tasks) :
    t.id ∉ e.pool.served ∧ e.pool.available = 0 := by
  obtain ⟨⟨b, hq⟩, hqueue | hask⟩ := h
  · exact ⟨hst.pool.notMem_served hqueue, hst.pool.busy (List.ne_nil_of_mem hqueue)⟩
  · have hanswer := e.pool.ask_answered t.id e.cancelled
    rw [hask] at hanswer
    exact hanswer.busy_of_waiting hst.pool (hst.notMem_holding hb ht hq)

/-- The one that waits and those that have the slots are more than there are slots. -/
theorem crowded (h : e.Waits t) (hb : Sound e events) (hst : Staffed e) (ht : t ∈ e.tasks) :
    e.pool.max < e.unfinished.length := by
  obtain ⟨hout, havailable⟩ := h.unserved hb hst ht
  have nd : (t.id :: e.pool.served).Nodup := List.nodup_cons.mpr ⟨hout, hst.pool.served_nodup⟩
  have hsub : t.id :: e.pool.served ⊆ e.unfinished.map BatchTask.id := by
    intro i hi
    rcases List.mem_cons.mp hi with rfl | hi
    · obtain ⟨⟨b, hq⟩, -⟩ := h
      exact List.mem_map_of_mem (List.mem_filter.mpr ⟨ht, by simp [hq, Stage.batch?]⟩)
    · exact hst.mem_unfinished_ids hi
  have hle := (List.subperm_of_subset nd hsub).length_le
  have hslots := hst.pool.length_served
  rw [List.length_cons, List.length_map] at hle
  omega

end Waits

/-- A task that need not wait and may go on gets its slot when it looks. -/
theorem starts_of_not_waits (hb : Sound e events) (ht : t ∈ e.tasks) (hq : t.stage = .queued b)
    (hw : ¬e.Waits t) (hc : e.cancelled = false) :
    ∃ e', e.step? (.resume t.id) = some (e', [.started b]) := by
  have hi := (hb.holding t ht b (Stage.batch?_of_queued hq)).2
  have hstep : e.step? (.resume t.id) = some (e.askForWorker b) := by
    simp [step?, hb.task?_of_mem ht, hq]
  have hask := askForWorker_asked e b
  rw [hstep]
  cases hres : e.askForWorker b with
  | mk e' new =>
    rw [hres] at hask
    cases hask with
    | abandoned hp =>
      have hanswer := e.pool.ask_answered b.id e.cancelled
      rw [hp] at hanswer
      rw [hanswer.cancelled_eq.1] at hc
      cases hc
    | waiting hp => exact absurd ⟨⟨b, hq⟩, .inr (by rw [← hi, hp])⟩ hw
    | granted => exact ⟨_, rfl⟩

def grants (e : Engine α β) : List (Action α β) → List Nat
  | [] => []
  | a :: rest =>
    match e.step? a with
    | none => []
    | some (e', _) => e.pool.gains e'.pool ++ e'.grants rest

theorem grants_concat (hr : e.run? actions = some (m, events))
    (hs : m.step? a = some (e', new)) :
    e.grants (actions ++ [a]) = e.grants actions ++ m.pool.gains e'.pool := by
  induction actions generalizing e events with
  | nil =>
    simp only [run?, Option.some.injEq, Prod.mk.injEq] at hr
    obtain ⟨rfl, -⟩ := hr
    simp [grants, hs]
  | cons b actions ih =>
    obtain ⟨k, first, others, hb, hk, -⟩ := run?_cons_eq_some_iff.mp hr
    simp [grants, hb, ih hk]

theorem asked_line (hask : Asked e b e' new) (h : Staffed e) (hc : e.cancelled = false)
    (hb : b.id ∉ e.pool.holding) :
    e.pool.gains e'.pool ++ e'.pool.queue =
      if b.id ∈ e.pool.waiters then e.pool.queue else e.pool.queue ++ [b.id] := by
  have hanswer := e.pool.ask_answered b.id e.cancelled
  rw [hc] at hanswer
  rw [hask.pool, hc]
  exact hanswer.gains_ask h.pool hb

/-- What one step makes of the line: nothing, or a task that is dropped leaves it, or one that asks
for the first time joins it at the end. -/
theorem step_line (hs : Step e a e' new) (hb : Sound e events) (h : Staffed e)
    (hc : e.cancelled = false) :
    e.pool.gains e'.pool ++ e'.pool.queue = e.pool.queue ∨
    (∃ i, a = .kill i ∧ e.pool.gains e'.pool ++ e'.pool.queue = e.pool.queue.erase i) ∨
    ∃ i, a = .resume i ∧ i ∉ e.pool.waiters ∧
      e.pool.gains e'.pool ++ e'.pool.queue = e.pool.queue ++ [i] := by
  cases hs with
  | aside ha =>
    rw [ha.pool]
    simp
  | @resumed t b ht hq =>
    have hi := (hb.holding t ht b (Stage.batch?_of_queued hq)).2
    have hline := asked_line (askForWorker_asked e b) h hc (hi ▸ h.notMem_holding hb ht hq)
    rw [hi] at hline
    by_cases hw : t.id ∈ e.pool.waiters
    · rw [if_pos hw] at hline
      exact .inl hline
    · rw [if_neg hw] at hline
      exact .inr (.inr ⟨t.id, rfl, hw, hline⟩)
  | @finished t b outcome ht hr =>
    have hi := (hb.holding t ht b (Stage.batch?_of_running hr)).2
    have hpool : (e.finish b outcome).1.pool = e.pool.leave b.id := by
      rw [finish_eq, settleAll_eq]
      rfl
    rw [hpool, h.pool.gains_leave, hi]
    have hserved : t.id ∈ e.pool.served :=
      Pool.mem_served.mpr (.inr ((h.holding t.id).mpr ⟨t, ht, rfl, b, hr⟩))
    exact .inl (List.erase_of_not_mem fun hq => h.pool.notMem_served hq hserved)
  | @dropped t b ht hq =>
    have hi := (hb.holding t ht b (Stage.batch?_of_queued hq)).2
    rw [hi]
    exact .inr (.inl ⟨t.id, rfl, h.pool.gains_leave t.id⟩)
  | @aborted t b ht hr =>
    have hi := (hb.holding t ht b (Stage.batch?_of_running hr)).2
    have hpool : ((e.endExecution b).release b.slots).pool = e.pool.leave t.id := by
      rw [← hi]
      rfl
    rw [hpool]
    exact .inr (.inl ⟨t.id, rfl, h.pool.gains_leave t.id⟩)
  | _ =>
    exact .inl (by simp [joinBatch, openBatch, setStage, endTask, takeBatch, removeBatch, release])

/-- Who has asked is in the line unless it has got its slot; the others keep their places. -/
theorem asked_waiters (hask : Asked e b e' new) (hb : Sound e events) (hc : e.cancelled = false)
    (ht : t ∈ e.tasks) (hi : t.id = b.id) {u : BatchTask α} {c : Batch α} (hu : u ∈ e'.tasks)
    (huq : u.stage = .queued c) :
    u.id ∈ e'.pool.waiters ∨
      u ∈ e.tasks ∧ u.id ≠ t.id ∧ (u.id ∈ e.pool.waiters → u.id ∈ e'.pool.waiters) := by
  have hanswer := e.pool.ask_answered b.id e.cancelled
  have hother : ∀ {pool answer}, e.pool.ask b.id e.cancelled = (pool, answer) → u.id ≠ t.id →
      u.id ∈ e.pool.waiters → u.id ∈ pool.waiters := by
    intro pool answer hp hne hw
    rw [hp, hc] at hanswer
    exact (hanswer.waiters_of_ne (hi ▸ hne)).mpr hw
  cases hask with
  | abandoned hp =>
    rw [hp, hc] at hanswer
    cases hanswer.cancelled_eq.1
  | waiting hp =>
    rw [← hi] at hu
    rcases mem_setStage hb.tasks ht hu with rfl | ⟨hu, hne⟩
    · rw [hp] at hanswer
      exact .inl (hi ▸ hanswer.mem_waiters_of_waiting)
    · exact .inr ⟨hu, hne, hother hp hne⟩
  | granted hp =>
    rw [← hi] at hu
    rcases mem_setStage hb.tasks ht hu with rfl | ⟨hu, hne⟩
    · cases huq
    · exact .inr ⟨hu, hne, hother hp hne⟩

/-- Who looks for a worker and has not asked the pool yet has just flushed its batch, or had not
asked before. -/
theorem step_unasked (hs : Step e a e' new) (hb : Sound e events) (h : Staffed e)
    (hc : e.cancelled = false) {u : BatchTask α} {c : Batch α} (hu : u ∈ e'.tasks)
    (huq : u.stage = .queued c) :
    u.id ∈ e'.pool.waiters ∨ c ∈ flushed new ∨
      u ∈ e.tasks ∧ u.id ∉ e.pool.waiters ∧ a ≠ .resume u.id := by
  have hkept : u ∈ e.tasks → (u.id ∈ e.pool.waiters → u.id ∈ e'.pool.waiters) →
      a ≠ .resume u.id → u.id ∈ e'.pool.waiters ∨ c ∈ flushed new ∨
        u ∈ e.tasks ∧ u.id ∉ e.pool.waiters ∧ a ≠ .resume u.id := by
    intro hold hstays ha
    by_cases hw : u.id ∈ e.pool.waiters
    · exact .inl (hstays hw)
    · exact .inr (.inr ⟨hold, hw, ha⟩)
  have hleft : ∀ i, u.id ≠ i → u.id ∈ e.pool.waiters → u.id ∈ (e.pool.leave i).waiters :=
    fun i hne hw => h.pool.mem_waiters_leave.mpr ⟨hw, hne⟩
  cases hs with
  | aside ha =>
    rw [ha.sameBooks.tasks] at hu
    rw [ha.pool] at hkept ⊢
    exact hkept hu id (by cases ha <;> simp)
  | joined => exact hkept hu id (by simp)
  | opened =>
    rcases List.mem_append.mp hu with hu | hu
    · exact hkept hu id (by simp)
    · rw [List.mem_singleton.mp hu] at huq
      cases huq
  | slept ht =>
    rcases mem_setStage hb.tasks ht hu with rfl | ⟨hu, -⟩
    · cases huq
    · exact hkept hu id (by simp)
  | rechecked ht =>
    rcases mem_setStage hb.tasks ht hu with rfl | ⟨hu, -⟩
    · cases huq
    · exact hkept hu id (by simp)
  | flushed ht =>
    rcases mem_setStage hb.tasks ht hu with rfl | ⟨hu, -⟩
    · cases huq
      exact .inr (.inl List.mem_cons_self)
    · exact hkept hu id (by simp)
  | @resumed t b ht hq =>
    have hi := (hb.holding t ht b (Stage.batch?_of_queued hq)).2
    rcases asked_waiters (askForWorker_asked e b) hb hc ht hi.symm hu huq with hw | ⟨hu, hne, hw⟩
    · exact .inl hw
    · exact hkept hu hw (by simpa using Ne.symm hne)
  | @finished t b outcome ht hr =>
    rw [finish_eq, settleAll_eq] at hu hkept ⊢
    obtain ⟨hu, hne⟩ := Keyed.mem_others.mp hu
    exact hkept hu (hleft b.id hne) (by simp)
  | strayed => exact hkept (List.mem_of_mem_filter hu) id (by simp)
  | lost => exact hkept (List.mem_of_mem_filter hu) id (by simp)
  | orphaned => exact hkept (List.mem_of_mem_filter hu) id (by simp)
  | vanished => exact hkept (List.mem_of_mem_filter hu) id (by simp)
  | @dropped t b ht hq =>
    obtain ⟨hu, hne⟩ := Keyed.mem_others.mp hu
    rw [← (hb.holding t ht b (Stage.batch?_of_queued hq)).2] at hne
    exact hkept hu (hleft b.id hne) (by simp)
  | @aborted t b ht hr =>
    obtain ⟨hu, hne⟩ := Keyed.mem_others.mp hu
    exact hkept hu (hleft b.id hne) (by simp)

/-- Who starts its batch holds a slot. -/
theorem step_started_served (hs : Step e a e' new) (hb : Sound e events) (h : Staffed e')
    (hst : b ∈ started new) : b.id ∈ e'.pool.served := by
  obtain ⟨t, ht, hi, hr⟩ := step_running_of_started hs hb hst
  exact Pool.mem_served.mpr (.inr ((h.holding b.id).mpr ⟨t, ht, hi, b, hr⟩))

/-- A batch is flushed by the timer with its id, alone and before any slot is asked for. -/
theorem step_flushed (hs : Step e a e' new) (hf : b ∈ flushed new) :
    (∃ t ∈ e.tasks, t.stage.isTiming = true ∧ t.id = b.id) ∧ e'.pool = e.pool ∧
      flushed new = [b] := by
  cases hs with
  | aside ha =>
    rw [show flushed new = [] from overlooks_flushed.aside ha] at hf
    cases hf
  | @flushed t wakeAt shutdown now c reason ht hst _ hp =>
    rw [List.mem_singleton.mp hf]
    exact ⟨⟨t, ht, Stage.isTiming_of_sleeping hst, (pendingAs?_eq_some hp).2.symm⟩, rfl, rfl⟩
  | resumed =>
    rw [show flushed _ = [] from overlooks_flushed.asked rfl rfl (askForWorker_asked ..)] at hf
    cases hf
  | finished =>
    rw [finish_eq, show flushed _ = [] from overlooks_flushed.ending ..] at hf
    cases hf
  | _ => cases hf

theorem not_cancelled_of_step (hs : e.step? a = some (e', new)) (hc : e'.cancelled = false) :
    e.cancelled = false := by
  by_contra hne
  rw [Bool.not_eq_false] at hne
  rw [(step_cancelled (step_of_step? hs)).mpr (.inl hne)] at hc
  cases hc

/-- A history in which a task that takes its batch out of the registry asks for a worker slot
before anything else happens. -/
inductive Polls (o : Options) : List (Action α β) → Engine α β → List (Event α β) → Prop where
  | built {e : Engine α β} {log : List LogEntry} : build o = .ok (e, log) → Polls o [] e []
  | step {actions : List (Action α β)} {e : Engine α β} {events : List (Event α β)}
      {a : Action α β} {e' : Engine α β} {new : List (Event α β)} :
      Polls o actions e events → e.step? a = some (e', new) → flushed new = [] →
      Polls o (actions ++ [a]) e' (events ++ new)
  | poll {actions : List (Action α β)} {e : Engine α β} {events : List (Event α β)}
      {a : Action α β} {m : Engine α β} {first : List (Event α β)} {b : Batch α}
      {e' : Engine α β} {new : List (Event α β)} :
      Polls o actions e events → e.step? a = some (m, first) → b ∈ flushed first →
      m.step? (.resume b.id) = some (e', new) →
      Polls o (actions ++ [a, .resume b.id]) e' (events ++ (first ++ new))

theorem Polls.reaches (h : Polls o actions e events) : Reaches o actions e events := by
  induction h with
  | built hb => exact .built hb
  | step _ hs _ ih => exact ih.step hs
  | poll _ hs _ hr ih => simpa using (ih.step hs).step hr

/-- Whoever has a slot was given it, and so was whoever ever executed its batch. -/
theorem Reaches.granted (h : Reaches o actions e events) :
    (∀ i ∈ e.pool.served, i ∈ (fresh o : Engine α β).grants actions) ∧
    ∀ b ∈ started events, b.id ∈ (fresh o : Engine α β).grants actions := by
  induction h with
  | built hb =>
    obtain ⟨-, rfl⟩ := build_eq_ok hb
    simp [fresh, Pool.served, started]
  | @step actions e events a e' new hr hs ih =>
    obtain ⟨hserved, hstarted⟩ := ih
    rw [grants_concat hr.run?_fresh hs]
    have hnow : ∀ i ∈ e'.pool.served,
        i ∈ (fresh o : Engine α β).grants actions ++ e.pool.gains e'.pool := by
      intro i hi
      by_cases hold : i ∈ e.pool.served
      · exact List.mem_append_left _ (hserved i hold)
      · exact List.mem_append_right _ (Pool.mem_gains.mpr ⟨hi, hold⟩)
    refine ⟨hnow, fun b hb => ?_⟩
    rw [started_append] at hb
    rcases List.mem_append.mp hb with hb | hb
    · exact List.mem_append_left _ (hstarted b hb)
    · exact hnow b.id (step_started_served (step_of_step? hs) hr.sound (hr.step hs).staffed hb)

/-- Slots are given out in the order in which batches are flushed: those that were given one, and
behind them those that queue for one. Only tasks that are dropped are missing. -/
structure InTurn (order : List Nat) (actions : List (Action α β)) (e : Engine α β)
    (events : List (Event α β)) : Prop where
  turns : (order ++ e.pool.queue).Sublist ((flushed events).map Batch.id)
  present : ∀ b ∈ flushed events, b.id ∈ order ++ e.pool.queue ∨ .kill b.id ∈ actions
  asked : ∀ t ∈ e.tasks, ∀ b, t.stage = .queued b → t.id ∈ e.pool.waiters

theorem resumed_of_step? (hs : e.step? (.resume i) = some (e', new)) :
    ∃ t ∈ e.tasks, t.id = i ∧ ∃ b, t.stage = .queued b ∧ Asked e b e' new := by
  cases step_of_step? hs with
  | aside ha => cases ha
  | @resumed t b ht hq => exact ⟨t, ht, rfl, b, hq, askForWorker_asked e b⟩

theorem Sound.flushed_nodup (h : Sound e events) : ((flushed events).map Batch.id).Nodup := by
  have hall := (flushed_sublist events).trans (List.sublist_append_left _ e.batches)
  exact h.ids_nodup.sublist (hall.map Batch.id)

namespace InTurn
variable {order : List Nat}

/-- A step that flushes nothing. -/
theorem step (h : InTurn order actions e events) (hr : Reaches o actions e events)
    (hs : e.step? a = some (e', new)) (hf : flushed new = []) (hc : e.cancelled = false) :
    InTurn (order ++ e.pool.gains e'.pool) (actions ++ [a]) e' (events ++ new) := by
  have hstep := step_of_step? hs
  have hflushed : flushed (events ++ new) = flushed events := by simp [hf]
  have hasked : ∀ t ∈ e'.tasks, ∀ b, t.stage = .queued b → t.id ∈ e'.pool.waiters := by
    intro t ht b hq
    rcases step_unasked hstep hr.sound hr.staffed hc ht hq with hw | hb | ⟨hold, hw, -⟩
    · exact hw
    · rw [hf] at hb
      cases hb
    · exact absurd (h.asked t hold b hq) hw
  have hturns := h.turns
  have hpresent := h.present
  rcases step_line hstep hr.sound hr.staffed hc with hline | ⟨i, rfl, hline⟩ | ⟨i, rfl, hout, -⟩
  · refine ⟨?_, ?_, hasked⟩
    · rw [hflushed, List.append_assoc, hline]
      exact hturns
    · rw [hflushed, List.append_assoc, hline]
      exact fun b hb => (hpresent b hb).imp_right (List.mem_append_left _)
  · refine ⟨?_, ?_, hasked⟩
    · rw [hflushed, List.append_assoc, hline]
      exact ((List.erase_sublist).append_left order).trans hturns
    · rw [hflushed, List.append_assoc, hline]
      intro b hb
      by_cases hi : b.id = i
      · exact .inr (by simp [hi])
      · refine (hpresent b hb).imp (fun hm => ?_) (List.mem_append_left _)
        rcases List.mem_append.mp hm with hm | hm
        · exact List.mem_append_left _ hm
        · exact List.mem_append_right _ ((List.mem_erase_of_ne hi).mpr hm)
  · obtain ⟨t, ht, rfl, b, hq, -⟩ := resumed_of_step? hs
    exact absurd (h.asked t ht b hq) hout

/-- A task flushes its batch and asks for a slot. -/
theorem poll (h : InTurn order actions e events) (hr : Reaches o actions e events)
    (hs : e.step? a = some (m, first)) (hf : b ∈ flushed first)
    (hm : m.step? (.resume b.id) = some (e', new)) (hc : m.cancelled = false) :
    InTurn (order ++ e.pool.gains m.pool ++ m.pool.gains e'.pool) (actions ++ [a] ++ [.resume b.id])
      e' (events ++ (first ++ new)) := by
  have hrm := hr.step hs
  obtain ⟨⟨t, ht, htiming, hti⟩, hpool, hfirst⟩ := step_flushed (step_of_step? hs) hf
  obtain ⟨u, hu, hui, c, hq, hask⟩ := resumed_of_step? hm
  have hci : c.id = b.id := (hrm.sound.holding u hu c (Stage.batch?_of_queued hq)).2.trans hui
  have hout : c.id ∉ e.pool.waiters := by
    rw [hci, ← hti]
    exact fun hw => hr.sound.not_looks_of_isTiming ht htiming (hr.staffed.waiting t.id hw)
  have hline : m.pool.gains e'.pool ++ e'.pool.queue = e.pool.queue ++ [b.id] := by
    have hholding := hrm.staffed.notMem_holding hrm.sound hu hq
    rw [hui, ← hci] at hholding
    rw [asked_line hask hrm.staffed hc hholding, hpool, if_neg hout, hci]
  have hnew : flushed new = [] := overlooks_flushed.asked rfl rfl hask
  have hflushed : flushed (events ++ (first ++ new)) = flushed events ++ [b] := by
    rw [flushed_append, flushed_append, hfirst, hnew, List.append_nil]
  have horder : order ++ e.pool.gains m.pool ++ m.pool.gains e'.pool ++ e'.pool.queue =
      order ++ e.pool.queue ++ [b.id] := by
    rw [hpool, Pool.gains_self, List.append_nil, List.append_assoc, ← hpool, hline, hpool,
      List.append_assoc]
  constructor
  case turns =>
    rw [horder, hflushed, List.map_append]
    exact h.turns.append_right [b.id]
  case present =>
    rw [horder, hflushed]
    intro d hd
    rcases List.mem_append.mp hd with hd | hd
    · refine (h.present d hd).imp (List.mem_append_left _) fun hk => ?_
      exact List.mem_append_left _ (List.mem_append_left _ hk)
    · rw [List.mem_singleton.mp hd]
      exact .inl (List.mem_append_right _ List.mem_cons_self)
  case asked =>
    intro v hv d hvq
    have hce := not_cancelled_of_step hs hc
    rcases step_unasked (step_of_step? hm) hrm.sound hrm.staffed hc hv hvq with
      hw | hd | ⟨hold, hw, hne⟩
    · exact hw
    · rw [hnew] at hd
      cases hd
    · -- it looked for a worker before, and is not the one that has just flushed its batch
      rcases step_unasked (step_of_step? hs) hr.sound hr.staffed hce hold hvq with
        hw' | hd | ⟨holder, hw', -⟩
      · exact absurd hw' hw
      · rw [hfirst] at hd
        have hvi := (hrm.sound.holding v hold d (Stage.batch?_of_queued hvq)).2
        rw [List.mem_singleton.mp hd] at hvi
        exact absurd (by rw [hvi]) hne
      · exact absurd (h.asked v holder d hvq) hw'

/-- When no task is dropped, nobody is missing. -/
theorem complete (h : InTurn order actions e events) (hb : Sound e events)
    (hk : ∀ i, .kill i ∉ actions) : order ++ e.pool.queue = (flushed events).map Batch.id := by
  have hsub : (flushed events).map Batch.id ⊆ order ++ e.pool.queue := by
    intro i hi
    obtain ⟨b, hb, rfl⟩ := List.mem_map.mp hi
    exact (h.present b hb).resolve_right (hk b.id)
  exact h.turns.eq_of_length_le (List.subperm_of_subset hb.flushed_nodup hsub).length_le

end InTurn

theorem Polls.inTurn (h : Polls o actions e events) (hc : e.cancelled = false) :
    InTurn ((fresh o : Engine α β).grants actions) actions e events := by
  induction h with
  | built hb =>
    obtain ⟨-, rfl⟩ := build_eq_ok hb
    constructor <;> simp [fresh, grants, flushed]
  | @step actions e events a e' new hp hs hf ih =>
    have hr := hp.reaches
    rw [grants_concat hr.run?_fresh hs]
    exact (ih (not_cancelled_of_step hs hc)).step hr hs hf (not_cancelled_of_step hs hc)
  | @poll actions e events a m first b e' new hp hs hf hm ih =>
    have hr := hp.reaches
    have hcm := not_cancelled_of_step hm hc
    have hce := not_cancelled_of_step hs hcm
    have hturn := (ih hce).poll hr hs hf hm hcm
    rw [← grants_concat hr.run?_fresh hs, ← grants_concat (hr.step hs).run?_fresh hm] at hturn
    simpa using hturn

/-- No slot is idle while a batch waits for one, and a batch that need not wait starts. -/
structure Conserving (o : Options) (e : Engine α β) : Prop where
  busy : ∀ t ∈ e.tasks, e.Waits t → e.stats.workersInUse = o.maxRequestWorkers.toNat
  roomy : e.unfinished.length ≤ o.maxRequestWorkers.toNat → ∀ t ∈ e.tasks, ¬e.Waits t
  starts : e.cancelled = false → ∀ t ∈ e.tasks, ∀ b, t.stage = .queued b → ¬e.Waits t →
    ∃ e', e.step? (.resume t.id) = some (e', [.started b])

theorem Reaches.conserving (h : Reaches o actions e events) : Conserving o e := by
  have hmax : e.pool.max = o.maxRequestWorkers.toNat := h.settings.workers
  constructor
  case busy =>
    intro t ht hw
    obtain ⟨-, havailable⟩ := hw.unserved h.sound h.staffed ht
    show e.pool.max - e.pool.available = _
    omega
  case roomy =>
    intro hle t ht hw
    have hmore := hw.crowded h.sound h.staffed ht
    omega
  case starts => exact fun hc t ht b hq hw => starts_of_not_waits h.sound ht hq hw hc

/-- In every history a batch waits only while all slots are in use, so none waits while there are no
more unfinished batches than slots; and as long as the engine is not cancelled slots are given out
in the order in which batches are flushed, whatever their keys and however long they execute. -/
theorem workers_busy_and_in_turn (h : Reaches o actions e events) :
    Conserving o e ∧
    (∀ b ∈ started events, b.id ∈ (fresh o : Engine α β).grants actions) ∧
    (Polls o actions e events → e.cancelled = false →
      InTurn ((fresh o : Engine α β).grants actions) actions e events ∧
      ((∀ i, .kill i ∉ actions) →
        (fresh o : Engine α β).grants actions ++ e.pool.queue =
          (flushed events).map Batch.id)) := by
  refine ⟨h.conserving, h.granted.2, fun hp hc => ?_⟩
  have hturn := hp.inTurn hc
  exact ⟨hturn, hturn.complete h.sound⟩

/-- Two batches queue for the only slot, and the first of them to be flushed gets it. -/
theorem workers_busy_and_in_turn_of_three : ∃ (actions : List (Action String String)) (e : _)
    (events : _), Polls { maxRequestWorkers := 1 } actions e events ∧ e.cancelled = false ∧
    e.pool.queue = [2] ∧ (flushed events).map Batch.id = [1, 0, 2] ∧
    (fresh { maxRequestWorkers := 1 } : Engine String String).grants actions = [1, 0] ∧
    Conserving { maxRequestWorkers := 1 } e ∧
    (fresh { maxRequestWorkers := 1 } : Engine String String).grants actions ++ e.pool.queue =
      (flushed events).map Batch.id := by
  have hbuilt : @Polls String String { maxRequestWorkers := 1 } [] _ [] := .built rfl
  have hsubmitted := ((hbuilt.step (a := .submit "t" ⟨"k"⟩ "a" ⟨0⟩) rfl rfl).step
    (a := .submit "u" ⟨"l"⟩ "b" ⟨0⟩) rfl rfl).step (a := .submit "v" ⟨"m"⟩ "c" ⟨0⟩) rfl rfl
  have harmed := ((hsubmitted.step (a := .arm 0) rfl rfl).step (a := .arm 1) rfl rfl).step
    (a := .arm 2) rfl rfl
  have hflushed := ((harmed.poll (a := .wake 1 false ⟨1000000000⟩) rfl List.mem_cons_self rfl).poll
    (a := .wake 0 false ⟨1000000000⟩) rfl List.mem_cons_self rfl).poll
    (a := .wake 2 false ⟨1000000000⟩) rfl List.mem_cons_self rfl
  have h := hflushed.step (a := .finish 1 (.results [])) rfl rfl
  obtain ⟨hconserving, -, hturn⟩ := workers_busy_and_in_turn h.reaches
  exact ⟨_, _, _, h, rfl, rfl, rfl, rfl, hconserving, (hturn h rfl).2 (by simp)⟩

end Coalesce.Engine
