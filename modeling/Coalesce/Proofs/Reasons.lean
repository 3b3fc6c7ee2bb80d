import Coalesce.Proofs.Readings

/-! # Batches are flushed in time and for true reasons

A timer may wake long after the instant it slept until, and long after that instant has been put
off. It reads the deadline of its batch again when it wakes, and the reason with it, so what it
flushes is due then, for the reason given; what is not due it leaves alone. -/
namespace Coalesce.Engine
variable {α β : Type} {e e' : Engine α β} {events new : List (Event α β)}
  {actions : List (Action α β)} {a : Action α β} {b : Batch α} {t : BatchTask α}
  {reason : FlushReason} {now : Instant} {shutdown : Bool} {o : Options}

/-- What the reason for a flush at a reading says: the idle timeout has passed since the latest
request, before the longest time would; or the longest time has passed since the first request, no
later than the idle timeout would; or the engine is cancelled. -/
inductive Due (idle max : Duration) (e : Engine α β) (b : Batch α) (now : Instant) :
    FlushReason → Prop where
  | idle {idleAt : Instant} : b.lastActivity.add? idle = some idleAt → idleAt ≤ now →
      (∀ maxAt, b.createdAt.add? max = some maxAt → idleAt < maxAt) → Due idle max e b now .idle
  | maxTimeout {maxAt : Instant} : b.createdAt.add? max = some maxAt → maxAt ≤ now →
      (∀ idleAt, b.lastActivity.add? idle = some idleAt → maxAt ≤ idleAt) →
      Due idle max e b now .maxTimeout
  | shutdown : e.cancelled = true → Due idle max e b now .shutdown

theorem due_of_closes (h : e.closes b ≤ now) :
    Due e.idle e.max e b now (b.group.reason e.idle e.max) := by
  by_cases hsoon : b.lastActivity.after e.idle < b.createdAt.after e.max
  · have hreason : b.group.reason e.idle e.max = .idle := if_pos hsoon
    have hend : e.closes b = b.lastActivity.after e.idle := min_eq_left hsoon.le
    rw [hend] at h
    obtain ⟨idleAt, hidleAt, hle⟩ := WithTop.le_coe_iff.mp h
    rw [hidleAt] at hsoon
    rw [hreason]
    refine .idle hidleAt hle fun maxAt hmaxAt => ?_
    have hafter : b.createdAt.after e.max = (maxAt : WithTop Instant) := hmaxAt
    rw [hafter] at hsoon
    exact WithTop.coe_lt_coe.mp hsoon
  · have hreason : b.group.reason e.idle e.max = .maxTimeout := if_neg hsoon
    have hlate := not_lt.mp hsoon
    have hend : e.closes b = b.createdAt.after e.max := min_eq_right hlate
    rw [hend] at h
    obtain ⟨maxAt, hmaxAt, hle⟩ := WithTop.le_coe_iff.mp h
    rw [hmaxAt] at hlate
    rw [hreason]
    refine .maxTimeout hmaxAt hle fun idleAt hidleAt => ?_
    have hafter : b.lastActivity.after e.idle = (idleAt : WithTop Instant) := hidleAt
    rw [hafter] at hlate
    exact WithTop.coe_le_coe.mp hlate

/-- The reason that a timer finds when it may wake holds. -/
theorem due_of_dueReason? {wakeAt : Option Instant} (hmay : e.mayWake wakeAt shutdown now = true)
    (h : e.dueReason? b shutdown now = some reason) : Due e.idle e.max e b now reason := by
  cases shutdown with
  | true =>
    have hreason : FlushReason.shutdown = reason := by simpa [dueReason?] using h
    have hcancelled : e.cancelled = true := by simpa [mayWake] using hmay
    exact hreason ▸ .shutdown hcancelled
  | false =>
    obtain ⟨hle, hreason⟩ := closes_of_dueReason? h
    exact hreason ▸ due_of_closes hle

/-- Only a timer that wakes flushes, and only its own batch, if that is due. -/
theorem step_flushes (hs : Step e a e' new) (hf : (b, reason, now) ∈ flushes new) :
    ∃ t ∈ e.tasks, ∃ wakeAt shutdown, a = .wake t.id shutdown now ∧ t.stage = .sleeping wakeAt ∧
      e.mayWake wakeAt shutdown now = true ∧ e.pendingAs? t.key t.id = some b ∧
      e.dueReason? b shutdown now = some reason := by
  cases hs with
  | aside ha =>
    rw [show flushes new = [] from overlooks_flushes.aside ha] at hf
    cases hf
  | @flushed t wakeAt shutdown instant c why ht hst hmay hp hdue =>
    obtain ⟨rfl, hrest⟩ := Prod.mk.inj (List.mem_singleton.mp hf)
    obtain ⟨rfl, rfl⟩ := Prod.mk.inj hrest
    exact ⟨t, ht, wakeAt, shutdown, rfl, hst, hmay, hp, hdue⟩
  | resumed =>
    rw [show flushes _ = [] from overlooks_flushes.asked rfl rfl (askForWorker_asked ..)] at hf
    cases hf
  | finished =>
    rw [finish_eq, show flushes _ = [] from overlooks_flushes.ending ..] at hf
    cases hf
  | _ => cases hf

/-- A flush is warranted if what its reason says holds of the arrivals of the batch's requests. -/
structure Warranted (o : Options) (actions : List (Action α β)) (e : Engine α β) (b : Batch α)
    (reason : FlushReason) (now : Instant) : Prop where
  dated : Dated actions b
  due : Due o.idleTimeout o.maxTimeout e b now reason
  quiet : reason = .idle → ∀ s ∈ b.slots, ∃ joined, arrivalAt? actions s = some joined ∧
    joined.nanos + o.idleTimeout.nanos ≤ now.nanos

theorem Dated.quiet (h : Dated actions b) {idle max : Duration}
    (hdue : Due idle max e b now .idle) :
    ∀ s ∈ b.slots, ∃ joined, arrivalAt? actions s = some joined ∧
      joined.nanos + idle.nanos ≤ now.nanos := by
  cases hdue with
  | @idle idleAt hidleAt hle =>
    obtain ⟨-, hsum⟩ := Instant.add?_eq_some_iff.mp hidleAt
    intro s hs
    obtain ⟨joined, harrived, -, hjoined⟩ := h.between s hs
    refine ⟨joined, harrived, ?_⟩
    rw [Instant.le_def] at hle hjoined
    omega

/-- A timer that wakes before its batch is due only has to check again. -/
theorem Sound.wake_of_not_due (hb : Sound e events) (ht : t ∈ e.tasks) {wakeAt : Instant}
    (hs : t.stage = .sleeping (some wakeAt)) (hwake : wakeAt ≤ now)
    (hp : e.pendingAs? t.key t.id = some b)
    (hlate : ∀ p ∈ b.deadline e.idle e.max, now < p.1) :
    e.step? (.wake t.id false now) = some (e.setStage t.id .checking, []) := by
  have hdue : e.dueReason? b false now = none := by
    cases hd : b.deadline e.idle e.max with
    | none => simp [dueReason?, hd]
    | some p =>
      have hnot : ¬p.1 ≤ now := not_le.mpr (hlate p hd)
      simp [dueReason?, hd, hnot]
  simp [step?, hb.task?_of_mem ht, hs, mayWake, hwake, wake, hp, hdue]

/-- However late timers wake, no batch is flushed early or for a false reason. A timer that wakes
for a deadline that requests have put off touches neither the registry nor the counters. -/
theorem flush_warranted (h : Reaches o actions e events)
    (hm : (readings actions).Pairwise (· ≤ ·)) :
    (∀ a e' new b reason now, e.step? a = some (e', new) → (b, reason, now) ∈ flushes new →
      Warranted o actions e b reason now) ∧
    ∀ t ∈ e.tasks, ∀ wakeAt now b, t.stage = .sleeping (some wakeAt) → wakeAt ≤ now →
      e.pendingAs? t.key t.id = some b →
      (∀ p ∈ b.deadline o.idleTimeout o.maxTimeout, now < p.1) →
      ∃ e', e.step? (.wake t.id false now) = some (e', []) ∧ e'.registry = e.registry ∧
        e'.counters = e.counters := by
  have hidle : e.idle = o.idleTimeout := h.settings.idle
  have hmax : e.max = o.maxTimeout := h.settings.max
  rw [← hidle, ← hmax]
  constructor
  · intro a e' new b reason now hs hf
    obtain ⟨t, -, wakeAt, shutdown, -, -, hmay, hp, hreason⟩ := step_flushes (step_of_step? hs) hf
    have hdated : Dated actions b := h.dated hm _ (pendingAs?_eq_some hp).1
    have hdue : Due o.idleTimeout o.maxTimeout e b now reason := by
      rw [← hidle, ← hmax]
      exact due_of_dueReason? hmay hreason
    exact ⟨hdated, hdue, fun heq => hdated.quiet (heq ▸ hdue)⟩
  · intro t ht wakeAt now b hs hwake hp hlate
    exact ⟨_, h.sound.wake_of_not_due ht hs hwake hp hlate, rfl, rfl⟩

/-- A second request puts the deadline off, so the timer wakes in vain. When it wakes again, long
after the deadline, it flushes for the idle timeout. -/
theorem flush_warranted_after_vain_wake : ∃ (e m : Engine String String) (events sofar : _)
    (b : Batch String),
    Reaches {} [.submit "t" ⟨"k"⟩ "a" ⟨0⟩, .arm 0, .submit "u" ⟨"k"⟩ "b" (.ofMillis 90)] e events ∧
    (∃ e', e.step? (.wake 0 false (.ofMillis 100)) = some (e', []) ∧
      e'.registry = e.registry ∧ e'.counters = e.counters) ∧
    Reaches {} [.submit "t" ⟨"k"⟩ "a" ⟨0⟩, .arm 0, .submit "u" ⟨"k"⟩ "b" (.ofMillis 90),
      .wake 0 false (.ofMillis 100), .arm 0] m sofar ∧
    (∃ m' new, m.step? (.wake 0 false (.ofMillis 500)) = some (m', new) ∧
      (b, .idle, .ofMillis 500) ∈ flushes new) ∧
    Warranted {} [.submit "t" ⟨"k"⟩ "a" ⟨0⟩, .arm 0, .submit "u" ⟨"k"⟩ "b" (.ofMillis 90),
      .wake 0 false (.ofMillis 100), .arm 0] m b .idle (.ofMillis 500) := by
  have h : @Reaches String String {} [.submit "t" ⟨"k"⟩ "a" ⟨0⟩, .arm 0,
      .submit "u" ⟨"k"⟩ "b" (.ofMillis 90)] _ _ := reaches_iff_run?.mpr ⟨_, _, rfl, rfl⟩
  have h' : @Reaches String String {} [.submit "t" ⟨"k"⟩ "a" ⟨0⟩, .arm 0,
      .submit "u" ⟨"k"⟩ "b" (.ofMillis 90), .wake 0 false (.ofMillis 100), .arm 0] _ _ :=
    reaches_iff_run?.mpr ⟨_, _, rfl, rfl⟩
  have hvain := (flush_warranted h (by decide)).2 ⟨0, ⟨"k"⟩, .sleeping (some (.ofMillis 100))⟩
    List.mem_cons_self (.ofMillis 100) (.ofMillis 100) _ rfl le_rfl rfl (by decide)
  have hflush := (flush_warranted h' (by decide)).1 (.wake 0 false (.ofMillis 500)) _ _
    ⟨0, ⟨"k"⟩, ["a", "b"], [0, 1], ⟨0⟩, .ofMillis 90⟩ .idle (.ofMillis 500) rfl List.mem_cons_self
  exact ⟨_, _, _, _, _, h, hvain, h', ⟨_, _, rfl, List.mem_cons_self⟩, hflush⟩

end Coalesce.Engine
