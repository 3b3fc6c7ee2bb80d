import Coalesce.Engine.Step
import Coalesce.Proofs.Limits

/-! # What an engine can come to

A history of an engine begins with its building and goes on with any step that is possible. Every
step is one of a few moves, each with the condition under which it is made. -/
namespace Coalesce

namespace Stage
variable {α : Type} {stage : Stage α} {b : Batch α}

theorem batch?_of_queued (h : stage = .queued b) : stage.batch? = some b := by rw [h, batch?]

theorem batch?_of_running (h : stage = .running b) : stage.batch? = some b := by rw [h, batch?]

theorem isTiming_of_armed (h : stage = .spawned ∨ stage = .checking) : stage.isTiming = true := by
  rcases h with rfl | rfl <;> rfl

theorem isTiming_of_sleeping {wakeAt : Option Instant} (h : stage = .sleeping wakeAt) :
    stage.isTiming = true := by
  rw [h, isTiming] <;> simp

theorem isTiming_iff : stage.isTiming = true ↔ stage.batch? = none := by
  cases stage <;> simp [isTiming, batch?]

theorem ne_of_isTiming {next : Stage α} (h : stage.isTiming = true)
    (hnext : next.isTiming = false) : stage ≠ next := by
  rintro rfl
  rw [h] at hnext
  cases hnext

end Stage

namespace Engine
variable {α β : Type}

/-- An engine built from `o` comes to `e` by the actions in turn, with the events in their order. -/
inductive Reaches (o : Options) : List (Action α β) → Engine α β → List (Event α β) → Prop where
  | built {e : Engine α β} {log : List LogEntry} : build o = .ok (e, log) → Reaches o [] e []
  | step {actions : List (Action α β)} {e : Engine α β} {events : List (Event α β)}
      {action : Action α β} {e' : Engine α β} {new : List (Event α β)} :
      Reaches o actions e events → e.step? action = some (e', new) →
      Reaches o (actions ++ [action]) e' (events ++ new)

theorem build_eq_ok {o : Options} {e : Engine α β} {log : List LogEntry}
    (h : build o = .ok (e, log)) : 0 < o.maxRequestWorkers.toNat ∧ e = fresh o := by
  rcases @build_cases α β o with ⟨_, _, _, hb⟩ | ⟨hworkable, _, _, hb⟩ | ⟨_, _, hb⟩
  · rw [hb] at h
    cases h
  · rw [hb] at h
    cases h
    exact ⟨hworkable.worker, rfl⟩
  · rw [hb] at h
    cases h

theorem run?_cons_eq_some_iff {e e' : Engine α β} {a : Action α β} {as : List (Action α β)}
    {events : List (Event α β)} :
    e.run? (a :: as) = some (e', events) ↔ ∃ m first others, e.step? a = some (m, first) ∧
      m.run? as = some (e', others) ∧ events = first ++ others := by
  constructor
  · intro h
    cases hs : e.step? a with
    | none => simp [run?, hs] at h
    | some p =>
      obtain ⟨m, first⟩ := p
      cases hr : m.run? as with
      | none => simp [run?, hs, hr] at h
      | some q =>
        obtain ⟨last, others⟩ := q
        simp only [run?, hs, hr, Option.bind_eq_bind, Option.bind_some, Option.pure_def,
          Option.some.injEq, Prod.mk.injEq] at h
        obtain ⟨rfl, rfl⟩ := h
        exact ⟨m, first, others, rfl, hr, rfl⟩
  · rintro ⟨m, first, others, hs, hr, rfl⟩
    simp [run?, hs, hr]

theorem Reaches.run {o : Options} {actions : List (Action α β)} {e : Engine α β}
    {events : List (Event α β)} (h : Reaches o actions e events) {as : List (Action α β)}
    {e' : Engine α β} {new : List (Event α β)} (hr : e.run? as = some (e', new)) :
    Reaches o (actions ++ as) e' (events ++ new) := by
  induction as generalizing actions e events new with
  | nil =>
    simp only [run?, Option.some.injEq, Prod.mk.injEq] at hr
    obtain ⟨rfl, rfl⟩ := hr
    simpa using h
  | cons a as ih =>
    obtain ⟨m, first, others, hs, hm, rfl⟩ := run?_cons_eq_some_iff.mp hr
    simpa using ih (h.step hs) hm

/-- What holds where a run begins, and is kept by its steps, holds where it ends. -/
theorem Reaches.run_induction {o : Options} {actions : List (Action α β)} {e : Engine α β}
    {events : List (Event α β)} {P : List (Action α β) → Engine α β → List (Event α β) → Prop}
    (h : Reaches o actions e events) (start : P [] e [])
    (next : ∀ before m sofar a m' first, Reaches o (actions ++ before) m (events ++ sofar) →
      P before m sofar → m.step? a = some (m', first) → P (before ++ [a]) m' (sofar ++ first))
    {as : List (Action α β)} {e' : Engine α β} {new : List (Event α β)}
    (hr : e.run? as = some (e', new)) : P as e' new := by
  suffices hrest : ∀ before m sofar, Reaches o (actions ++ before) m (events ++ sofar) →
      P before m sofar → ∀ rest last, m.run? as = some (last, rest) →
      P (before ++ as) last (sofar ++ rest) from
    hrest [] e [] (by simpa using h) start new e' hr
  clear hr start
  induction as with
  | nil =>
    intro before m sofar _ hp rest last hr
    simp only [run?, Option.some.injEq, Prod.mk.injEq] at hr
    obtain ⟨rfl, rfl⟩ := hr
    simpa using hp
  | cons a as ih =>
    intro before m sofar hm hp rest last hr
    obtain ⟨m', first, others, hs, hm', rfl⟩ := run?_cons_eq_some_iff.mp hr
    have hone : Reaches o (actions ++ (before ++ [a])) m' (events ++ (sofar ++ first)) := by
      rw [← List.append_assoc, ← List.append_assoc]
      exact hm.step hs
    simpa using ih (before ++ [a]) m' (sofar ++ first) hone (next _ _ _ _ _ _ hm hp hs) _ _ hm'

theorem run?_concat {e m e' : Engine α β} {as : List (Action α β)} {a : Action α β}
    {events new : List (Event α β)} (hr : e.run? as = some (m, events))
    (hs : m.step? a = some (e', new)) : e.run? (as ++ [a]) = some (e', events ++ new) := by
  induction as generalizing e events with
  | nil =>
    simp only [run?, Option.some.injEq, Prod.mk.injEq] at hr
    obtain ⟨rfl, rfl⟩ := hr
    simp [run?, hs]
  | cons b as ih =>
    obtain ⟨k, first, others, hb, hk, rfl⟩ := run?_cons_eq_some_iff.mp hr
    exact run?_cons_eq_some_iff.mpr ⟨k, first, _, hb, ih hk, by simp⟩

/-- The histories of an engine are the runs from its building on. -/
theorem reaches_iff_run? {o : Options} {actions : List (Action α β)} {e : Engine α β}
    {events : List (Event α β)} :
    Reaches o actions e events ↔ ∃ start log, build o = .ok (start, log) ∧
      start.run? actions = some (e, events) := by
  constructor
  · intro h
    induction h with
    | built hb => exact ⟨_, _, hb, rfl⟩
    | step _ hs ih =>
      obtain ⟨start, log, hb, hr⟩ := ih
      exact ⟨start, log, hb, run?_concat hr hs⟩
  · rintro ⟨start, log, hb, hr⟩
    simpa using (Reaches.built hb).run hr

theorem Reaches.run?_fresh {o : Options} {actions : List (Action α β)} {e : Engine α β}
    {events : List (Event α β)} (h : Reaches o actions e events) :
    (fresh o).run? actions = some (e, events) := by
  obtain ⟨start, log, hb, hr⟩ := reaches_iff_run?.mp h
  rwa [(build_eq_ok hb).2] at hr

def Spares (o : Options) (kept : Stage α → Prop) (actions : List (Action α β)) : Prop :=
  ∀ before id after, actions = before ++ .kill id :: after →
    ∀ e events, Reaches o before e events → ∀ t ∈ e.tasks, t.id = id → ¬kept t.stage

theorem Spares.init {o : Options} {kept : Stage α → Prop} {actions : List (Action α β)}
    {a : Action α β} (h : Spares o kept (actions ++ [a])) : Spares o kept actions := by
  intro before id after hactions
  exact h before id (after ++ [a]) (by simp [hactions])

theorem Spares.last {o : Options} {kept : Stage α → Prop} {actions : List (Action α β)}
    {t : BatchTask α} (h : Spares o kept (actions ++ [.kill t.id])) {e : Engine α β}
    {events : List (Event α β)} (hr : Reaches o actions e events) (ht : t ∈ e.tasks) :
    ¬kept t.stage :=
  h actions t.id [] rfl e events hr t ht rfl

theorem spares_of_forall_ne {o : Options} {kept : Stage α → Prop} {actions : List (Action α β)}
    (h : ∀ id, .kill id ∉ actions) : Spares o kept actions := by
  rintro before id after rfl
  exact absurd (List.mem_append_right _ List.mem_cons_self) (h id)

/-- The steps that touch no batch, no task and no worker: refusals, cancellations and what callers
do. -/
inductive Aside (e : Engine α β) : Action α β → Engine α β → List (Event α β) → Prop where
  | rejected {token : String} {key : Key} {request : α} {now : Instant} : e.cancelled = true →
      Aside e (.submit token key request now) e [.rejected key request]
  | cancelled : Aside e .cancel { e with cancelled := true } []
  | closed : e.cancelled = true → Aside e .close { e with closed := true } []
  | tokenCancelled {token : String} :
      Aside e (.cancelToken token) { e with cancelledTokens := token :: e.cancelledTokens } []
  | answered {ticket : Ticket} {call : Call β} {result : Except Error β} :
      e.calls[ticket]? = some call → call.wait.isWaiting = true → e.answer? call = some result →
      Aside e (.look ticket) (e.setWait ticket (.returned result)) [.returned ticket result]
  | unanswered {ticket : Ticket} :
      (∀ call, e.calls[ticket]? = some call → call.wait.isWaiting = true → e.answer? call = none) →
      Aside e (.look ticket) e []
  | left {ticket : Ticket} {call : Call β} :
      e.calls[ticket]? = some call → call.wait.isWaiting = true →
      Aside e (.leave ticket) (e.setWait ticket .left) []
  | gone {ticket : Ticket} :
      (∀ call, e.calls[ticket]? = some call → call.wait.isWaiting = false) →
      Aside e (.leave ticket) e []

/-- All that a step can be. A task that is dropped was lost before it first ran, leaves with the
batch that it timed, or gives up the batch that it had taken. -/
inductive Step (e : Engine α β) : Action α β → Engine α β → List (Event α β) → Prop where
  | aside {a : Action α β} {e' : Engine α β} {new : List (Event α β)} :
      Aside e a e' new → Step e a e' new
  | joined {token : String} {key : Key} {request : α} {now : Instant} {b : Batch α} :
      e.cancelled = false → e.pending? key = some b →
      Step e (.submit token key request now) (e.joinBatch token key request now).1
        (e.joinBatch token key request now).2
  | opened {token : String} {key : Key} {request : α} {now : Instant} :
      e.cancelled = false → e.pending? key = none →
      Step e (.submit token key request now) (e.openBatch token key request now).1
        (e.openBatch token key request now).2
  | slept {t : BatchTask α} {b : Batch α} :
      t ∈ e.tasks → t.stage = .spawned ∨ t.stage = .checking →
      e.pendingAs? t.key t.id = some b →
      Step e (.arm t.id) (e.setStage t.id (.sleeping ((b.deadline e.idle e.max).map (·.1)))) []
  | strayed {t : BatchTask α} :
      t ∈ e.tasks → t.stage = .spawned ∨ t.stage = .checking →
      e.pendingAs? t.key t.id = none → Step e (.arm t.id) (e.endTask t.id) []
  | rechecked {t : BatchTask α} {wakeAt : Option Instant} {shutdown : Bool} {now : Instant} :
      t ∈ e.tasks → t.stage = .sleeping wakeAt →
      e.mayWake wakeAt shutdown now = true →
      (∀ b, e.pendingAs? t.key t.id = some b → e.dueReason? b shutdown now = none) →
      Step e (.wake t.id shutdown now) (e.setStage t.id .checking) []
  | flushed {t : BatchTask α} {wakeAt : Option Instant} {shutdown : Bool} {now : Instant}
      {b : Batch α} {reason : FlushReason} :
      t ∈ e.tasks → t.stage = .sleeping wakeAt →
      e.mayWake wakeAt shutdown now = true →
      e.pendingAs? t.key t.id = some b → e.dueReason? b shutdown now = some reason →
      Step e (.wake t.id shutdown now) (e.takeBatch t b reason) [.flushed b reason now]
  | resumed {t : BatchTask α} {b : Batch α} :
      t ∈ e.tasks → t.stage = .queued b →
      Step e (.resume t.id) (e.askForWorker b).1 (e.askForWorker b).2
  | finished {t : BatchTask α} {b : Batch α} {outcome : Outcome β} :
      t ∈ e.tasks → t.stage = .running b →
      Step e (.finish t.id outcome) (e.finish b outcome).1 (e.finish b outcome).2
  | lost {t : BatchTask α} :
      t ∈ e.tasks → t.stage = .spawned → Step e (.kill t.id) (e.endTask t.id) []
  | orphaned {t : BatchTask α} {b : Batch α} :
      t ∈ e.tasks → t.stage.isTiming = true → t.stage ≠ .spawned →
      e.pendingAs? t.key t.id = some b →
      Step e (.kill t.id) (((e.endTask t.id).removeBatch t.key).release b.slots) [.orphaned b]
  | vanished {t : BatchTask α} :
      t ∈ e.tasks → t.stage.isTiming = true → t.stage ≠ .spawned →
      e.pendingAs? t.key t.id = none → Step e (.kill t.id) (e.endTask t.id) []
  | dropped {t : BatchTask α} {b : Batch α} :
      t ∈ e.tasks → t.stage = .queued b →
      Step e (.kill t.id)
        ({ e.endTask t.id with pool := e.pool.leave b.id }.release b.slots) []
  | aborted {t : BatchTask α} {b : Batch α} :
      t ∈ e.tasks → t.stage = .running b →
      Step e (.kill t.id) ((e.endExecution b).release b.slots) []

theorem task?_eq_some {e : Engine α β} {id : Nat} {t : BatchTask α} (h : e.task? id = some t) :
    t ∈ e.tasks ∧ t.id = id :=
  ⟨List.mem_of_find?_eq_some h, by simpa using List.find?_some h⟩

theorem look_aside (e : Engine α β) (ticket : Ticket) :
    Aside e (.look ticket) (e.look ticket).1 (e.look ticket).2 := by
  unfold look
  cases hc : e.calls[ticket]? with
  | none => exact .unanswered (by simp [hc])
  | some call =>
    cases hw : call.wait.isWaiting with
    | false => simpa [hw] using Aside.unanswered (by simp [hc, hw])
    | true =>
      cases ha : e.answer? call with
      | none => simpa [hw, ha] using Aside.unanswered (by simp [hc, ha])
      | some result => simpa [hw, ha] using Aside.answered hc hw ha

theorem leave_aside (e : Engine α β) (ticket : Ticket) :
    Aside e (.leave ticket) (e.leave ticket) [] := by
  unfold leave
  cases hc : e.calls[ticket]? with
  | none => exact .gone (by simp [hc])
  | some call =>
    cases hw : call.wait.isWaiting with
    | false => simpa [hw] using Aside.gone (by simp [hc, hw])
    | true => simpa [hw] using Aside.left hc hw

theorem submit_step (e : Engine α β) (token : String) (key : Key) (request : α) (now : Instant) :
    Step e (.submit token key request now) (e.submit token key request now).1
      (e.submit token key request now).2 := by
  unfold submit enqueue
  cases hc : e.cancelled with
  | true => exact .aside (.rejected hc)
  | false =>
    cases hp : e.pending? key with
    | none => exact .opened hc hp
    | some b => exact .joined hc hp

theorem arm_step {e : Engine α β} {t : BatchTask α} (ht : t ∈ e.tasks)
    (hs : t.stage = .spawned ∨ t.stage = .checking) : Step e (.arm t.id) (e.arm t) [] := by
  unfold arm
  cases hp : e.pendingAs? t.key t.id with
  | none => exact .strayed ht hs hp
  | some b => exact .slept ht hs hp

theorem wake_step {e : Engine α β} {t : BatchTask α} {wakeAt : Option Instant} {shutdown : Bool}
    {now : Instant} (ht : t ∈ e.tasks) (hs : t.stage = .sleeping wakeAt)
    (hw : e.mayWake wakeAt shutdown now = true) :
    Step e (.wake t.id shutdown now) (e.wake t shutdown now).1 (e.wake t shutdown now).2 := by
  unfold wake
  cases hp : e.pendingAs? t.key t.id with
  | none => exact .rechecked ht hs hw (by simp [hp])
  | some b =>
    cases hr : e.dueReason? b shutdown now with
    | none => simpa [hr] using Step.rechecked ht hs hw (by simpa [hp] using hr)
    | some reason => simpa [hr] using Step.flushed ht hs hw hp hr

theorem dropTimer_step {e : Engine α β} {t : BatchTask α} (ht : t ∈ e.tasks)
    (hs : t.stage.isTiming = true) (hn : t.stage ≠ .spawned) :
    Step e (.kill t.id) (e.dropTimer t).1 (e.dropTimer t).2 := by
  unfold dropTimer
  cases hp : e.pendingAs? t.key t.id with
  | none => exact .vanished ht hs hn hp
  | some b => exact .orphaned ht hs hn hp

theorem kill_step {e : Engine α β} {t : BatchTask α} (ht : t ∈ e.tasks) :
    Step e (.kill t.id) (e.kill t).1 (e.kill t).2 := by
  unfold kill
  cases hs : t.stage with
  | spawned => exact .lost ht hs
  | checking => exact dropTimer_step ht (by simp [hs, Stage.isTiming]) (by simp [hs])
  | sleeping wakeAt => exact dropTimer_step ht (by simp [hs, Stage.isTiming]) (by simp [hs])
  | queued b => exact .dropped ht hs
  | running b => exact .aborted ht hs

section
variable {e e' : Engine α β} {new : List (Event α β)} {id : Nat}

theorem exists_task {γ : Type} {f : BatchTask α → Option γ} {c : γ}
    (h : (e.task? id).bind f = some c) : ∃ t ∈ e.tasks, t.id = id ∧ f t = some c := by
  obtain ⟨t, ht, hf⟩ := Option.bind_eq_some_iff.mp h
  obtain ⟨hm, hi⟩ := task?_eq_some ht
  exact ⟨t, hm, hi, hf⟩

theorem step_of_arm (h : e.step? (.arm id) = some (e', new)) : Step e (.arm id) e' new := by
  obtain ⟨t, hm, rfl, hf⟩ := exists_task h
  cases hs : t.stage with
  | spawned =>
    rw [hs] at hf
    cases hf
    exact arm_step hm (.inl hs)
  | checking =>
    rw [hs] at hf
    cases hf
    exact arm_step hm (.inr hs)
  | _ => simp [hs] at hf

theorem step_of_wake {shutdown : Bool} {now : Instant}
    (h : e.step? (.wake id shutdown now) = some (e', new)) :
    Step e (.wake id shutdown now) e' new := by
  obtain ⟨t, hm, rfl, hf⟩ := exists_task h
  cases hs : t.stage with
  | sleeping wakeAt =>
    simp only [hs] at hf
    by_cases hw : e.mayWake wakeAt shutdown now = true
    · rw [if_pos hw, Option.some.injEq] at hf
      have hstep := wake_step hm hs hw
      rwa [hf] at hstep
    · rw [if_neg hw] at hf
      cases hf
  | _ => simp [hs] at hf

theorem step_of_resume (h : e.step? (.resume id) = some (e', new)) :
    Step e (.resume id) e' new := by
  obtain ⟨t, hm, rfl, hf⟩ := exists_task h
  cases hs : t.stage with
  | queued b =>
    simp only [hs, Option.some.injEq] at hf
    have hstep := Step.resumed hm hs
    rwa [hf] at hstep
  | _ => simp [hs] at hf

theorem step_of_finish {outcome : Outcome β} (h : e.step? (.finish id outcome) = some (e', new)) :
    Step e (.finish id outcome) e' new := by
  obtain ⟨t, hm, rfl, hf⟩ := exists_task h
  cases hs : t.stage with
  | running b =>
    simp only [hs, Option.some.injEq] at hf
    have hstep : Step e (.finish t.id outcome) _ _ := .finished hm hs
    rwa [hf] at hstep
  | _ => simp [hs] at hf

theorem step_of_kill (h : e.step? (.kill id) = some (e', new)) : Step e (.kill id) e' new := by
  obtain ⟨t, hm, rfl, hf⟩ := exists_task h
  have hstep := kill_step (e := e) hm
  rwa [Option.some.inj hf] at hstep

theorem step_of_close (h : e.step? .close = some (e', new)) : Step e .close e' new := by
  by_cases hc : e.cancelled = true
  · rw [step?, if_pos hc, Option.some.injEq] at h
    cases h
    exact .aside (.closed hc)
  · rw [step?, if_neg hc] at h
    cases h

/-- Every step that is possible is one of the moves. -/
theorem step_of_step? {a : Action α β} (h : e.step? a = some (e', new)) : Step e a e' new := by
  cases a with
  | submit token key request now =>
    have hs := submit_step e token key request now
    rwa [Option.some.inj h] at hs
  | arm id => exact step_of_arm h
  | wake id shutdown now => exact step_of_wake h
  | resume id => exact step_of_resume h
  | finish id outcome => exact step_of_finish h
  | cancel =>
    cases h
    exact .aside .cancelled
  | close => exact step_of_close h
  | cancelToken token =>
    cases h
    exact .aside .tokenCancelled
  | look ticket =>
    have hs := look_aside e ticket
    rw [Option.some.inj h] at hs
    exact .aside hs
  | leave ticket =>
    cases h
    exact .aside (leave_aside e ticket)
  | kill id => exact step_of_kill h

end

end Engine

end Coalesce
