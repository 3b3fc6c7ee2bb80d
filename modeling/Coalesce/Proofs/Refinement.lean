import Coalesce.Proofs.Prompt
import Mathlib.Algebra.GroupWithZero.Nat
import Mathlib.Data.Set.Finite.Lemmas

/-! # Batching is grouping

Every timeline of submissions can be played with prompt timers. However it is played, once no timer
has to run any more the batches that were flushed under a key are the groups of the key's own
submissions that are complete by then, each flushed when it was complete. -/
namespace Coalesce.Engine
open Keyed
variable {α β : Type} {e e' : Engine α β} {events : List (Event α β)}
  {actions : List (Action α β)} {b : Batch α} {t : BatchTask α} {clock later : Instant}
  {o : Options}

def Rests (e : Engine α β) (clock : Instant) : Prop :=
  ∀ t ∈ e.timers, (clock : WithTop Instant) < e.wakesAt t

/-- How many steps a timer makes at most before it takes its batch, if nothing is submitted: it may
sleep until an instant that has been put off since. -/
def stepsLeft (e : Engine α β) (t : BatchTask α) : Nat :=
  match t.stage with
  | .spawned => 2
  | .checking => 2
  | .sleeping _ => if e.wakesAt { t with stage := .checking } = e.wakesAt t then 1 else 3
  | _ => 0

def toDo (e : Engine α β) : Nat := (e.tasks.map e.stepsLeft).sum

theorem stepsLeft_of_armed (h : t.stage = .spawned ∨ t.stage = .checking) : e.stepsLeft t = 2 := by
  rcases h with h | h <;> rw [stepsLeft, h]

theorem stepsLeft_of_sleeping {wakeAt : Option Instant} (hs : t.stage = .sleeping wakeAt)
    (hp : e.pendingAs? t.key t.id = some b) :
    e.stepsLeft t = if e.closes b = e.wakesAt t then 1 else 3 := by
  have hchecks : e.wakesAt { t with stage := .checking } = e.closes b :=
    wakesAt_of_armed (.inr rfl) hp
  rw [stepsLeft, hs]
  simp only [hchecks]

theorem stepsLeft_of_not_isTiming (h : t.stage.isTiming = false) : e.stepsLeft t = 0 := by
  unfold stepsLeft
  cases hs : t.stage <;> simp_all [Stage.isTiming]

theorem stepsLeft_eq (hset : SameSettings e e')
    (hp : e'.pendingAs? t.key t.id = e.pendingAs? t.key t.id) :
    e'.stepsLeft t = e.stepsLeft t := by
  have hchecks := wakesAt_eq (t := { t with stage := .checking }) hset hp
  unfold stepsLeft
  rw [hchecks, wakesAt_eq hset hp]

/-- Where one timer gets on and the others are left alone, there is less to do. -/
theorem toDo_lt (hb : Sound e events) (ht : t ∈ e.tasks) {stage : Stage α}
    (htasks : e'.tasks = (e.setStage t.id stage).tasks)
    (hothers : ∀ u ∈ e.tasks, u.id ≠ t.id → e'.stepsLeft u = e.stepsLeft u)
    (hlt : e'.stepsLeft { t with stage := stage } < e.stepsLeft t) : e'.toDo < e.toDo := by
  have hold : e.toDo =
      e.stepsLeft t + ((others BatchTask.id t.id e.tasks).map e.stepsLeft).sum :=
    ((perm_cons_others hb.tasks ht).map e.stepsLeft).sum_nat.trans List.sum_cons
  have hnew : e'.toDo = e'.stepsLeft { t with stage := stage } +
      ((others BatchTask.id t.id e.tasks).map e'.stepsLeft).sum := by
    rw [toDo, htasks]
    exact ((perm_setStage hb.tasks ht stage).map e'.stepsLeft).sum_nat.trans List.sum_cons
  have hsame : (others BatchTask.id t.id e.tasks).map e'.stepsLeft =
      (others BatchTask.id t.id e.tasks).map e.stepsLeft := by
    refine List.map_congr_left fun u hu => ?_
    obtain ⟨hu, hne⟩ := mem_others.mp hu
    exact hothers u hu hne
  rw [hold, hnew, hsame]
  omega

theorem toDo_setStage_lt (hb : Sound e events) (ht : t ∈ e.tasks) {stage : Stage α}
    (hlt : e.stepsLeft { t with stage := stage } < e.stepsLeft t) :
    (e.setStage t.id stage).toDo < e.toDo :=
  toDo_lt hb ht rfl (fun _ _ _ => rfl) hlt

theorem toDo_arm_lt (hb : Sound e events) (ht : t ∈ e.tasks)
    (hs : t.stage = .spawned ∨ t.stage = .checking) (hp : e.pendingAs? t.key t.id = some b) :
    (e.arm t).toDo < e.toDo := by
  rw [arm, hp]
  refine toDo_setStage_lt hb ht ?_
  have hsleeps : e.closes b = e.wakesAt { t with
      stage := .sleeping ((b.deadline e.idle e.max).map (·.1)) } :=
    ((wakesAt_of_sleeping rfl).trans (b.deadline_eq e.idle e.max).1).symm
  have hone := stepsLeft_of_sleeping (t := { t with
    stage := .sleeping ((b.deadline e.idle e.max).map (·.1)) }) rfl hp
  rw [stepsLeft_of_armed hs, hone, if_pos hsleeps]
  exact Nat.lt_succ_self 1

theorem toDo_wake_lt (hb : Sound e events) (ht : t ∈ e.timers)
    (hs : t.stage = .sleeping (some clock)) (hp : e.pendingAs? t.key t.id = some b) :
    (e.wake t false clock).1.toDo < e.toDo := by
  obtain ⟨htask, -⟩ := mem_timers.mp ht
  rw [wake, hp]
  dsimp only
  cases hdue : e.dueReason? b false clock with
  | none =>
    have hlate : e.closes b ≠ e.wakesAt t := by
      rw [wakesAt_of_sleeping hs]
      exact fun hcloses => dueReason?_ne_none hcloses.le hdue
    refine toDo_setStage_lt hb htask ?_
    rw [stepsLeft_of_armed (.inr rfl), stepsLeft_of_sleeping hs hp, if_neg hlate]
    exact Nat.lt_succ_self 2
  | some reason =>
    have htasks : (e.takeBatch t b reason).tasks = (e.setStage t.id (.queued b)).tasks := rfl
    refine toDo_lt hb htask htasks ?_ ?_
    · intro u hu hne
      cases hus : u.stage.isTiming with
      | true =>
        have hu' : u ∈ e.timers := mem_timers.mpr ⟨hu, hus⟩
        exact stepsLeft_eq ⟨rfl, rfl, rfl, rfl⟩ (hb.pendingAs?_takeBatch ht hu' hne b reason)
      | false => rw [stepsLeft_of_not_isTiming hus, stepsLeft_of_not_isTiming hus]
    · rw [stepsLeft_of_not_isTiming rfl, stepsLeft_of_sleeping hs hp]
      split <;> decide

/-- The timer that has to run now can. -/
theorem Prompt.exists_step (h : Prompt o actions e events clock) (ht : t ∈ e.timers)
    (hw : e.wakesAt t = clock) : ∃ a e' new, e.Timely clock a ∧
      e.step? a = some (e', new) ∧ a.submission? = none ∧ e'.toDo < e.toDo := by
  have hb := h.reaches.sound
  obtain ⟨htask, hst⟩ := mem_timers.mp ht
  obtain ⟨b, hp⟩ := hb.timer_finds htask hst
  have hfind := hb.task?_of_mem htask
  cases hs : t.stage with
  | spawned =>
    have hstep : e.step? (.arm t.id) = some (e.arm t, []) := by simp [step?, hfind, hs]
    exact ⟨.arm t.id, _, _, trivial, hstep, rfl, toDo_arm_lt hb htask (.inl hs) hp⟩
  | checking =>
    have hstep : e.step? (.arm t.id) = some (e.arm t, []) := by simp [step?, hfind, hs]
    exact ⟨.arm t.id, _, _, trivial, hstep, rfl, toDo_arm_lt hb htask (.inr hs) hp⟩
  | sleeping wakeAt =>
    have hwake : wakeAt = some clock := (wakesAt_of_sleeping hs).symm.trans hw
    subst hwake
    have hstep : e.step? (.wake t.id false clock) = some (e.wake t false clock) := by
      simp [step?, hfind, hs, mayWake]
    exact ⟨.wake t.id false clock, _, _, rfl, hstep, rfl, toDo_wake_lt hb ht hs hp⟩
  | queued b =>
    rw [hs] at hst
    cases hst
  | running b =>
    rw [hs] at hst
    cases hst

/-- Of the timers that have to run by an instant, one is first. -/
theorem exists_first (h : ¬e.Rests later) : ∃ t ∈ e.timers, e.wakesAt t ≤ later ∧
    ∀ u ∈ e.timers, e.wakesAt t ≤ e.wakesAt u := by
  obtain ⟨u, hu, hdue⟩ : ∃ u ∈ e.timers, e.wakesAt u ≤ later := by
    simpa [Rests] using h
  obtain ⟨t, ht, hfirst⟩ := Set.exists_min_image {t | t ∈ e.timers} e.wakesAt
    (List.finite_toSet e.timers) ⟨u, hu⟩
  exact ⟨t, ht, (hfirst u hu).trans hdue, hfirst⟩

/-- With nothing submitted, time can go on to any later instant at which the timers rest. -/
theorem Prompt.exists_rests (h : Prompt o actions e events clock) (hle : clock ≤ later) :
    ∃ more e' new, Prompt o (actions ++ more) e' (events ++ new) later ∧ e'.Rests later ∧
      timeline more = [] := by
  induction hn : e.toDo using Nat.strong_induction_on generalizing actions e events clock with
  | _ n ih =>
    by_cases hr : e.Rests later
    · have hlast := h.waited hle fun t ht => (hr t ht).le
      exact ⟨[], e, [], by simpa using hlast, hr, rfl⟩
    · -- the clock goes on to the first timer that has to run, which leaves less to do
      obtain ⟨t, ht, hdue, hfirst⟩ := exists_first hr
      obtain ⟨now, hnow, hlater⟩ := WithTop.le_coe_iff.mp hdue
      have hclock : clock ≤ now := WithTop.coe_le_coe.mp (hnow ▸ h.follows.onTime t ht)
      have hwaited := h.waited hclock fun u hu => hnow ▸ hfirst u hu
      obtain ⟨a, m, new, htimely, hs, ha, hlt⟩ := hwaited.exists_step ht hnow
      obtain ⟨more, last, rest, hprompt, hrests, hnone⟩ :=
        ih m.toDo (hn ▸ hlt) (hwaited.step htimely hs) hlater rfl
      refine ⟨a :: more, last, new ++ rest, by simpa using hprompt, hrests, ?_⟩
      rw [timeline, List.filterMap_cons_none ha]
      exact hnone

/-- Every timeline can be played. -/
theorem exists_prompt {start : Engine α β} {log : List LogEntry} (hb : build o = .ok (start, log))
    {submitted : List (Instant × Key × α)} (hs : (submitted.map Prod.fst).Pairwise (· ≤ ·))
    (hc : ∀ s ∈ submitted, s.1 ≤ clock) : ∃ (actions : _) (e : Engine α β) (events : _),
      Prompt o actions e events clock ∧ e.Rests clock ∧ timeline actions = submitted := by
  induction submitted using List.reverseRecOn generalizing clock with
  | nil =>
    obtain ⟨more, e, events, hp, hr, hnone⟩ :=
      (Prompt.built hb).exists_rests (Nat.zero_le clock.nanos)
    exact ⟨more, e, events, hp, hr, hnone⟩
  | append_singleton before s ih =>
    rw [List.map_append, List.pairwise_append] at hs
    obtain ⟨hbefore, -, hlast⟩ := hs
    have hle : ∀ r ∈ before, r.1 ≤ s.1 :=
      fun r hr => hlast r.1 (List.mem_map_of_mem hr) s.1 List.mem_cons_self
    obtain ⟨actions, m, events, hm, hrests, htl⟩ := ih hbefore hle
    have htimely : m.Timely s.1 (.submit "" s.2.1 s.2.2 s.1) := ⟨rfl, hrests⟩
    obtain ⟨more, e, rest, hp, hr, hnone⟩ := (hm.step htimely rfl).exists_rests
      (hc s (List.mem_append_right _ List.mem_cons_self))
    refine ⟨_, e, _, hp, hr, ?_⟩
    rw [timeline_append, timeline_append, htl, hnone, List.append_nil]
    rfl

theorem Follows.lt_closes (h : Follows e actions events clock) (hb : Sound e events)
    (hr : e.Rests clock) {key : Key} (hp : e.pending? key = some b) :
    (clock : WithTop Instant) < e.closes b := by
  obtain ⟨t, ht, hfound⟩ := h.watched.exists_timer hb hp
  exact (hr t ht).trans_le (h.early t ht b hfound)

/-- Once the timers rest, the flushed batches of a key are its complete groups, and the pending
batch is the group that is not. -/
theorem Prompt.groups_eq (h : Prompt o actions e events clock) (hr : e.Rests clock) (key : Key) :
    ((Group.all e.idle e.max (under (timeline actions) key)).filter fun g =>
      g.closes e.idle e.max ≤ (clock : WithTop Instant)) =
        (flushesUnder events key).map (fun p => p.1.group) ∧
    ((Group.all e.idle e.max (under (timeline actions) key)).filter fun g =>
      (clock : WithTop Instant) < g.closes e.idle e.max) =
        (e.pending? key).toList.map Batch.group := by
  have hf := h.follows
  have hcomplete : ∀ g ∈ (flushesUnder events key).map (fun p => p.1.group),
      g.closes e.idle e.max ≤ (clock : WithTop Instant) := by
    intro g hg
    obtain ⟨p, hp, rfl⟩ := List.mem_map.mp hg
    obtain ⟨hcloses, -, hle⟩ := hf.punctual p (List.mem_of_mem_filter hp)
    exact hcloses.trans_le (WithTop.coe_le_coe.mpr hle)
  have hopen : ∀ g ∈ (e.pending? key).toList.map Batch.group,
      (clock : WithTop Instant) < g.closes e.idle e.max := by
    intro g hg
    obtain ⟨b, hb, rfl⟩ := List.mem_map.mp hg
    exact hf.lt_closes h.reaches.sound hr (Option.mem_toList.mp hb)
  rw [← hf.grouped key, List.filter_append, List.filter_append]
  constructor
  · rw [List.filter_eq_self.mpr fun g hg => decide_eq_true (hcomplete g hg),
      List.filter_eq_nil_iff.mpr fun g hg => by simpa using hopen g hg, List.append_nil]
  · rw [List.filter_eq_nil_iff.mpr fun g hg => by simpa using hcomplete g hg,
      List.filter_eq_self.mpr fun g hg => decide_eq_true (hopen g hg), List.nil_append]

/-- With prompt timers an engine computes the grouping. Any timeline of submissions, under whatever
keys, can be played up to any instant; and whenever it has been and the timers rest, the batches
flushed under a key hold the requests of those groups of the key's own submissions that are complete
by then, in order, each flushed at the very instant at which it was complete, for the reason that
the grouping gives. The group that is not complete yet is pending. -/
theorem batching_refines_grouping {start : Engine α β} {log : List LogEntry}
    (hb : build o = .ok (start, log)) {submitted : List (Instant × Key × α)}
    (hs : (submitted.map Prod.fst).Pairwise (· ≤ ·)) (hc : ∀ s ∈ submitted, s.1 ≤ clock) :
    (∃ (actions : _) (e : Engine α β) (events : _), Prompt o actions e events clock ∧
      e.Rests clock ∧ timeline actions = submitted) ∧
    ∀ (actions : _) (e : Engine α β) (events : _), Prompt o actions e events clock →
      e.Rests clock → timeline actions = submitted → ∀ key,
        (flushesUnder events key).map
            (fun p => (p.1.requests, (p.2.2 : WithTop Instant), p.2.1)) =
          ((Group.all o.idleTimeout o.maxTimeout (under submitted key)).filter fun g =>
              g.closes o.idleTimeout o.maxTimeout ≤ (clock : WithTop Instant)).map
            (fun g => (g.requests, g.closes o.idleTimeout o.maxTimeout,
              g.reason o.idleTimeout o.maxTimeout)) ∧
        (e.pending? key).toList.map Batch.requests =
          ((Group.all o.idleTimeout o.maxTimeout (under submitted key)).filter fun g =>
              (clock : WithTop Instant) < g.closes o.idleTimeout o.maxTimeout).map
            Group.requests := by
  refine ⟨exists_prompt hb hs hc, ?_⟩
  rintro actions e events h hr rfl key
  have hset := h.reaches.settings
  have hidle : e.idle = o.idleTimeout := hset.idle
  have hmax : e.max = o.maxTimeout := hset.max
  obtain ⟨hflushed, hpending⟩ := h.groups_eq hr key
  rw [← hidle, ← hmax, hflushed, hpending, List.map_map, List.map_map]
  refine ⟨List.map_congr_left fun p hp => ?_, rfl⟩
  obtain ⟨hcloses, hreason, -⟩ := h.follows.punctual p (List.mem_of_mem_filter hp)
  exact Prod.ext rfl (Prod.ext hcloses.symm hreason)

/-- The second request of a key postpones its first batch beyond the longest time; a third comes at
the very instant at which that batch has to flush, and opens another. A request of another key is no
concern of theirs. -/
theorem batching_refines_grouping_trickle :
    ∃ (actions : _) (e : Engine String String) (events : _),
      Prompt { maxTimeout := .ofMillis 120 } actions e events (.ofMillis 400) ∧
      timeline actions = [(.ofMillis 0, ⟨"k"⟩, "a"), (.ofMillis 50, ⟨"k"⟩, "b"),
        (.ofMillis 60, ⟨"l"⟩, "x"), (.ofMillis 120, ⟨"k"⟩, "c")] ∧
      (flushesUnder events ⟨"k"⟩).map (fun p => (p.1.requests, (p.2.2 : WithTop Instant), p.2.1)) =
        ([(["a", "b"], Instant.ofMillis 120, .maxTimeout), (["c"], Instant.ofMillis 220, .idle)] :
          List (List String × WithTop Instant × FlushReason)) := by
  obtain ⟨⟨actions, e, events, hp, hr, htl⟩, hall⟩ := @batching_refines_grouping String String
    (.ofMillis 400) { maxTimeout := .ofMillis 120 } _ _ rfl
    [(.ofMillis 0, ⟨"k"⟩, "a"), (.ofMillis 50, ⟨"k"⟩, "b"), (.ofMillis 60, ⟨"l"⟩, "x"),
      (.ofMillis 120, ⟨"k"⟩, "c")] (by decide) (by decide)
  exact ⟨actions, e, events, hp, htl, (hall actions e events hp hr htl ⟨"k"⟩).1.trans (by rfl)⟩

end Coalesce.Engine
