import Coalesce.Proofs.Readings

/-! # Timers wake in time

A timer sleeps until an instant that it read off its batch in the past, and requests that have
joined since may have moved the end of the batch, even beyond every instant. They can only have put
it off, so the timer wakes no later than it has to, and the longest time is kept. -/
namespace Coalesce.Engine
variable {α β : Type} {e e' : Engine α β} {events new : List (Event α β)}
  {actions : List (Action α β)} {a : Action α β} {b : Batch α} {t : BatchTask α}
  {now maxAt : Instant} {shutdown : Bool} {o : Options}

def Early (e : Engine α β) : Prop :=
  ∀ t ∈ e.timers, ∀ b, e.pendingAs? t.key t.id = some b → e.wakesAt t ≤ e.closes b

namespace Early

/-- The timers that are left find their batches where they were. -/
theorem keep (h : Early e) (hset : SameSettings e e')
    (hkept : ∀ u ∈ e'.timers, u ∈ e.timers ∧ e'.pendingAs? u.key u.id = e.pendingAs? u.key u.id) :
    Early e' := by
  intro u hu b hb
  obtain ⟨hold, hsame⟩ := hkept u hu
  rw [wakesAt_eq hset hsame, closes_eq hset]
  exact h u hold b (hsame.symm.trans hb)

theorem of_timers (h : Early e) (hset : SameSettings e e') (hr : e'.registry = e.registry)
    (hkept : ∀ u ∈ e'.timers, u ∈ e.timers) : Early e' := by
  refine h.keep hset fun u hu => ⟨hkept u hu, pendingAs?_eq ?_ u.id⟩
  rw [pending?, hr, pending?]

/-- A timer leaves with its batch. -/
theorem remove (h : Early e) (hb : Sound e events) (ht : t ∈ e.timers) (hset : SameSettings e e')
    (hr : e'.registry = (e.removeBatch t.key).registry)
    (hkept : ∀ u ∈ e'.timers, u ∈ e.timers ∧ u.id ≠ t.id) : Early e' := by
  refine h.keep hset fun u hu => ?_
  obtain ⟨hold, hne⟩ := hkept u hu
  have hkey : u.key ≠ t.key := hb.key_ne_of_timer hold ht hne
  refine ⟨hold, pendingAs?_eq ?_ u.id⟩
  rw [pending?, hr]
  exact (pending?_removeBatch e t.key u.key).trans (if_neg hkey)

/-- A timer reads the end of its batch anew, to sleep until then or to check again. -/
theorem restage (h : Early e) (hb : Sound e events) (ht : t ∈ e.tasks)
    (hp : e.pendingAs? t.key t.id = some b) {stage : Stage α}
    (hstage : e.wakesAt { t with stage := stage } = e.closes b) :
    Early (e.setStage t.id stage) := by
  intro u hu c hc
  obtain ⟨hu, hus⟩ := mem_timers.mp hu
  rcases mem_setStage hb.tasks ht hu with rfl | ⟨hu, -⟩
  · have hcb : b = c := Option.some.inj (hp.symm.trans hc)
    exact hcb ▸ hstage.le
  · exact h u (mem_timers.mpr ⟨hu, hus⟩) c hc

theorem joinBatch (h : Early e) (hb : Sound e events)
    (hpast : ∀ p ∈ e.registry, p.2.lastActivity ≤ now) (token : String) (key : Key) (request : α) :
    Early (e.joinBatch token key request now).1 := by
  intro t ht c hc
  obtain ⟨htask, hst⟩ := mem_timers.mp ht
  obtain ⟨b, hp⟩ := hb.timer_finds htask hst
  have hlast := hpast _ (pendingAs?_eq_some hp).1
  obtain ⟨d, hd, hputOff⟩ := pendingAs?_joinBatch hp hlast token key request
  have hcd : d = c := Option.some.inj (hd.symm.trans hc)
  have hearly : e.wakesAt t ≤ e.closes b := h t ht b hp
  exact hcd ▸ (wakesAt_le_wakesAt hp hd hputOff hearly).2

theorem openBatch (h : Early e) (hb : Sound e events) {key : Key} (hp : e.pending? key = none)
    (token : String) (request : α) (now : Instant) :
    Early (e.openBatch token key request now).1 := by
  have hset : SameSettings e (e.openBatch token key request now).1 := ⟨rfl, rfl, rfl, rfl⟩
  intro t ht c hc
  obtain ⟨htask, hst⟩ := mem_timers.mp ht
  rcases List.mem_append.mp htask with htask | hnew
  · have hold : t ∈ e.timers := mem_timers.mpr ⟨htask, hst⟩
    have hsame := hb.pendingAs?_openBatch hp hold token request now
    rw [wakesAt_eq hset hsame]
    exact h t hold c (hsame.symm.trans hc)
  · rw [List.mem_singleton.mp hnew] at hc ⊢
    exact (wakesAt_of_armed (.inl rfl) hc).le

end Early

/-- A step that reads no clock before the latest request of any batch lets no timer oversleep. -/
theorem step_early (hs : Step e a e' new) (hb : Sound e events)
    (hpast : ∀ now ∈ a.reading?, ∀ p ∈ e.registry, p.2.lastActivity ≤ now) (h : Early e) :
    Early e' := by
  have hset := step_sameSettings hs
  cases hs with
  | aside ha =>
    refine h.of_timers hset ha.sameBooks.registry fun u hu => ?_
    rwa [timers, ha.sameBooks.tasks] at hu
  | joined => exact h.joinBatch hb (hpast _ rfl) _ _ _
  | opened _ hp => exact h.openBatch hb hp _ _ _
  | @slept t b ht hst hp =>
    exact h.restage hb ht hp ((wakesAt_of_sleeping rfl).trans (b.deadline_eq e.idle e.max).1)
  | @rechecked t wakeAt shutdown now ht hst =>
    obtain ⟨b, hp⟩ := hb.timer_finds ht (Stage.isTiming_of_sleeping hst)
    exact h.restage hb ht hp (wakesAt_of_armed (.inr rfl) hp)
  | @flushed t wakeAt shutdown now b reason ht hst =>
    have ht' : t ∈ e.timers := mem_timers.mpr ⟨ht, Stage.isTiming_of_sleeping hst⟩
    refine h.remove hb ht' hset rfl fun u hu => ?_
    obtain ⟨hu, hus⟩ := mem_timers.mp hu
    rcases mem_setStage hb.tasks ht hu with rfl | ⟨hu, hne⟩
    · cases hus
    · exact ⟨mem_timers.mpr ⟨hu, hus⟩, hne⟩
  | @resumed t b =>
    have hask := askForWorker_asked e b
    exact h.of_timers hset hask.registry fun u hu => hask.mem_timers hu
  | @finished t b outcome =>
    rw [finish_eq, settleAll_eq] at *
    exact h.of_timers hset rfl fun u hu => mem_timers_endTask (e := e) b.id hu
  | @orphaned t b ht hst =>
    refine h.remove hb (mem_timers.mpr ⟨ht, hst⟩) hset rfl fun u hu => ?_
    have hne : u.id ≠ t.id := (Keyed.mem_others.mp (mem_timers.mp hu).1).2
    exact ⟨mem_timers_endTask (e := e) t.id hu, hne⟩
  | _ => exact h.of_timers hset rfl fun u hu => mem_timers_endTask _ hu

theorem Reaches.early (h : Reaches o actions e events)
    (hm : (readings actions).Pairwise (· ≤ ·)) : Early e := by
  induction h with
  | built hb =>
    obtain ⟨-, rfl⟩ := build_eq_ok hb
    intro t ht
    cases ht
  | @step actions e events a e' new hr hs ih =>
    obtain ⟨hbefore, -⟩ := pairwise_readings hm
    refine step_early (step_of_step? hs) hr.sound (fun now hnow => ?_) (ih hbefore)
    exact hr.lastActivity_le hm hnow

/-- A poll of a timer: if it sleeps it wakes, and if not it goes to sleep and wakes at once. -/
def pollOf (t : BatchTask α) (shutdown : Bool) (now : Instant) : List (Action α β) :=
  match t.stage with
  | .sleeping _ => [.wake t.id shutdown now]
  | _ => [.arm t.id, .wake t.id shutdown now]

theorem closes_le_of_longest (hm : b.createdAt.add? e.max = some maxAt) : e.closes b ≤ maxAt :=
  (min_le_right _ _).trans (le_of_eq hm)

/-- A timer that wakes when its batch is past its end takes it. -/
theorem Sound.exists_flush (hb : Sound e events) (ht : t ∈ e.tasks) {wakeAt : Instant}
    (hs : t.stage = .sleeping (some wakeAt)) (hp : e.pendingAs? t.key t.id = some b)
    (hwake : wakeAt ≤ now) (hdue : e.closes b ≤ now)
    (hshutdown : shutdown = true → e.cancelled = true) :
    ∃ e' reason, e.step? (.wake t.id shutdown now) = some (e', [.flushed b reason now]) ∧
      e'.pending? t.key = none := by
  have hmay : e.mayWake (some wakeAt) shutdown now = true := by
    cases shutdown with
    | false => simpa [mayWake] using hwake
    | true => simpa [mayWake] using hshutdown rfl
  obtain ⟨reason, hreason⟩ : ∃ reason, e.dueReason? b shutdown now = some reason := by
    cases shutdown with
    | false => exact Option.ne_none_iff_exists'.mp (dueReason?_ne_none hdue)
    | true => exact ⟨.shutdown, rfl⟩
  refine ⟨e.takeBatch t b reason, reason, ?_, ?_⟩
  · simp [step?, hb.task?_of_mem ht, hs, hmay, wake, hp, hreason]
  · exact (pending?_removeBatch e t.key t.key).trans (if_pos rfl)

/-- How a timer serves its batch: it sleeps neither beyond the batch's end nor beyond the longest
time, sleeps for good only if the batch has no end, and takes the batch in the first poll after the
longest time. -/
structure InTime (o : Options) (e : Engine α β) (t : BatchTask α) (b : Batch α) : Prop where
  beforeEnd : ∀ wakeAt, t.stage = .sleeping (some wakeAt) →
    ∀ p ∈ b.deadline o.idleTimeout o.maxTimeout, wakeAt ≤ p.1
  beforeLongest : ∀ wakeAt, t.stage = .sleeping (some wakeAt) →
    ∀ maxAt, b.createdAt.add? o.maxTimeout = some maxAt → wakeAt ≤ maxAt
  endless : t.stage = .sleeping none → b.deadline o.idleTimeout o.maxTimeout = none
  polled : ∀ maxAt now shutdown, b.createdAt.add? o.maxTimeout = some maxAt → maxAt ≤ now →
    (shutdown = true → e.cancelled = true) →
    ∃ e' reason, e.run? (pollOf t shutdown now) = some (e', [.flushed b reason now]) ∧
      e'.pending? t.key = none

/-- The end of a batch, seen through its deadline. -/
theorem le_deadline {wakeAt : Instant} (h : (wakeAt : WithTop Instant) ≤ e.closes b) :
    ∀ p ∈ b.deadline e.idle e.max, wakeAt ≤ p.1 := by
  intro p hp
  rw [closes, (Batch.deadline_eq_some hp).1] at h
  exact WithTop.coe_le_coe.mp h

/-- A timer that is not asleep reads the end of its batch in a poll, and sleeps until then. -/
theorem Reaches.exists_poll_of_armed (h : Reaches o actions e events) (ht : t ∈ e.tasks)
    (hst : t.stage = .spawned ∨ t.stage = .checking) (hp : e.pendingAs? t.key t.id = some b)
    (hdue : e.closes b ≤ now) (hshutdown : shutdown = true → e.cancelled = true) :
    ∃ e' reason, e.run? (pollOf t shutdown now) = some (e', [.flushed b reason now]) ∧
      e'.pending? t.key = none := by
  obtain ⟨wakeAt, hwakeAt, hle⟩ := WithTop.le_coe_iff.mp hdue
  have hsleeps : (b.deadline e.idle e.max).map (·.1) = some wakeAt :=
    (b.deadline_eq e.idle e.max).1.trans hwakeAt
  have harm : e.step? (.arm t.id) = some (e.setStage t.id (.sleeping (some wakeAt)), []) := by
    rcases hst with hst | hst <;> simp [step?, h.sound.task?_of_mem ht, hst, arm, hp, hsleeps]
  have hnext := h.step harm
  obtain ⟨e', reason, hwake, hgone⟩ := hnext.sound.exists_flush
    (mem_setStage_self ht (.sleeping (some wakeAt))) rfl hp hle hdue hshutdown
  refine ⟨e', reason, ?_, hgone⟩
  have hpoll : (pollOf t shutdown now : List (Action α β)) =
      [.arm t.id, .wake t.id shutdown now] := by
    rcases hst with hst | hst <;> simp [pollOf, hst]
  rw [hpoll]
  exact run?_cons_eq_some_iff.mpr ⟨_, _, _, harm, by simp [run?, hwake], rfl⟩

theorem Reaches.exists_poll (h : Reaches o actions e events) (ht : t ∈ e.timers)
    (hp : e.pendingAs? t.key t.id = some b) (hearly : e.wakesAt t ≤ e.closes b)
    (hdue : e.closes b ≤ now) (hshutdown : shutdown = true → e.cancelled = true) :
    ∃ e' reason, e.run? (pollOf t shutdown now) = some (e', [.flushed b reason now]) ∧
      e'.pending? t.key = none := by
  obtain ⟨htask, htiming⟩ := mem_timers.mp ht
  cases hs : t.stage with
  | spawned => exact h.exists_poll_of_armed htask (.inl hs) hp hdue hshutdown
  | checking => exact h.exists_poll_of_armed htask (.inr hs) hp hdue hshutdown
  | sleeping wakeAt =>
    rw [wakesAt_of_sleeping hs] at hearly
    obtain ⟨instant, rfl, hle⟩ := WithTop.le_coe_iff.mp (hearly.trans hdue)
    obtain ⟨e', reason, hwake, hgone⟩ := h.sound.exists_flush htask hs hp hle hdue hshutdown
    refine ⟨e', reason, ?_, hgone⟩
    simp [pollOf, hs, run?, hwake]
  | queued c => simp [hs, Stage.isTiming] at htiming
  | running c => simp [hs, Stage.isTiming] at htiming

/-- Whatever requests have joined its batch, and however late it runs itself, no timer oversleeps.
If it sleeps, then until the end of its batch at the latest and not beyond the longest time, or for
good if the batch has no end now. So a poll at or after the longest time takes the batch out of the
registry. -/
theorem timer_in_time (h : Reaches o actions e events)
    (hm : (readings actions).Pairwise (· ≤ ·)) (ht : t ∈ e.timers) :
    ∃ b, e.pendingAs? t.key t.id = some b ∧ InTime o e t b := by
  obtain ⟨htask, htiming⟩ := mem_timers.mp ht
  obtain ⟨b, hp⟩ := h.sound.timer_finds htask htiming
  have hidle : e.idle = o.idleTimeout := h.settings.idle
  have hmax : e.max = o.maxTimeout := h.settings.max
  have hearly : e.wakesAt t ≤ e.closes b := h.early hm t ht b hp
  refine ⟨b, hp, ?_⟩
  constructor
  case beforeEnd =>
    intro wakeAt hs
    rw [wakesAt_of_sleeping hs] at hearly
    rw [← hidle, ← hmax]
    exact le_deadline hearly
  case beforeLongest =>
    intro wakeAt hs maxAt hmaxAt
    rw [← hmax] at hmaxAt
    rw [wakesAt_of_sleeping hs] at hearly
    exact WithTop.coe_le_coe.mp (hearly.trans (closes_le_of_longest hmaxAt))
  case endless =>
    intro hs
    rw [wakesAt_of_sleeping hs] at hearly
    rw [← hidle, ← hmax]
    exact Batch.deadline_eq_none_iff.mpr (top_le_iff.mp hearly)
  case polled =>
    intro maxAt now shutdown hmaxAt hnow hshutdown
    rw [← hmax] at hmaxAt
    have hend : e.closes b ≤ maxAt := closes_le_of_longest hmaxAt
    have hdue : e.closes b ≤ now := hend.trans (WithTop.coe_le_coe.mpr hnow)
    exact h.exists_poll ht hp hearly hdue hshutdown

/-- A timer still sleeps until the end that its batch had before a second request joined. Polled at
the longest time, it takes both requests. -/
theorem timer_in_time_after_join : ∃ (e : Engine String String) (events : _) (b : Batch String),
    Reaches { maxTimeout := .ofMillis 120 } [.submit "t" ⟨"k"⟩ "a" ⟨0⟩, .arm 0,
      .submit "u" ⟨"k"⟩ "b" (.ofMillis 90)] e events ∧
    (⟨0, ⟨"k"⟩, .sleeping (some (.ofMillis 100))⟩ : BatchTask String) ∈ e.timers ∧
    b.requests = ["a", "b"] ∧
    b.deadline e.idle e.max = some (.ofMillis 120, .maxTimeout) ∧
    ∃ e' reason, e.run? [.wake 0 false (.ofMillis 120)] =
      some (e', [.flushed b reason (.ofMillis 120)]) ∧ e'.pending? ⟨"k"⟩ = none := by
  have h : @Reaches String String { maxTimeout := .ofMillis 120 } [.submit "t" ⟨"k"⟩ "a" ⟨0⟩,
      .arm 0, .submit "u" ⟨"k"⟩ "b" (.ofMillis 90)] _ _ := reaches_iff_run?.mpr ⟨_, _, rfl, rfl⟩
  obtain ⟨b, hp, hb⟩ := timer_in_time h (by decide)
    (t := ⟨0, ⟨"k"⟩, .sleeping (some (.ofMillis 100))⟩) List.mem_cons_self
  obtain rfl : _ = b := Option.some.inj hp
  exact ⟨_, _, _, h, List.mem_cons_self, rfl, by decide,
    hb.polled (.ofMillis 120) (.ofMillis 120) false rfl le_rfl (by simp)⟩

end Coalesce.Engine
