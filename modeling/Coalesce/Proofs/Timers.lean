import Coalesce.Proofs.Executions

/-! # Every pending batch has its timer

A task that is dropped before it first runs leaves its batch in the registry for ever. As long as
that does not happen, the pending batches and the tasks that time them are the same. -/
namespace Coalesce.Engine
variable {α β : Type} {e e' : Engine α β} {events new : List (Event α β)}

def timers (e : Engine α β) : List (BatchTask α) := e.tasks.filter fun t => t.stage.isTiming

def Watched (e : Engine α β) : Prop :=
  ∀ p ∈ e.registry, ∃ t ∈ e.timers, t.key = p.1 ∧ t.id = p.2.id

theorem mem_timers {t : BatchTask α} : t ∈ e.timers ↔ t ∈ e.tasks ∧ t.stage.isTiming = true :=
  List.mem_filter

namespace Sound

theorem entry_eq_of_id (h : Sound e events) {p q : Key × Batch α} (hp : p ∈ e.registry)
    (hq : q ∈ e.registry) (hi : p.2.id = q.2.id) : p = q := by
  have hb : p.2 = q.2 :=
    h.eq_of_id (mem_everyBatch_of_registry hp) (mem_everyBatch_of_registry hq) hi
  exact Prod.ext ((h.own p hp).symm.trans ((congrArg Batch.key hb).trans (h.own q hq))) hb

theorem id_ne_of_timer (h : Sound e events) {t u : BatchTask α} (ht : t ∈ e.timers)
    (hu : u ∈ e.tasks) {b : Batch α} (hb : u.stage.batch? = some b) : t.id ≠ b.id := by
  obtain ⟨ht, hs⟩ := mem_timers.mp ht
  intro hi
  have hsame := h.task_eq_of_id ht hu (hi.trans (h.holding u hu b hb).2)
  rw [hsame, Stage.isTiming_iff, hb] at hs
  cases hs

end Sound

namespace Watched

theorem of_timers (h : Watched e) (hr : e'.registry = e.registry)
    (ht : ∀ t ∈ e.timers, ∃ u ∈ e'.timers, u.key = t.key ∧ u.id = t.id) : Watched e' := by
  intro p hp
  obtain ⟨t, hm, hk, hi⟩ := h p (hr ▸ hp)
  obtain ⟨u, hu, huk, hui⟩ := ht t hm
  exact ⟨u, hu, huk.trans hk, hui.trans hi⟩

theorem of_tasks (h : Watched e) (hr : e'.registry = e.registry)
    (ht : ∀ t ∈ e.timers, t ∈ e'.tasks) : Watched e' := by
  refine h.of_timers hr fun t hm => ⟨t, ?_, rfl, rfl⟩
  exact mem_timers.mpr ⟨ht t hm, (mem_timers.mp hm).2⟩

theorem setStage (h : Watched e) (id : Nat) {stage : Stage α} (hs : stage.isTiming = true) :
    Watched (e.setStage id stage) := by
  refine h.of_timers rfl fun u hu => ?_
  obtain ⟨hu, hus⟩ := mem_timers.mp hu
  by_cases hi : u.id = id
  · refine ⟨{ u with stage := stage }, mem_timers.mpr ⟨?_, hs⟩, rfl, rfl⟩
    rw [← hi]
    exact mem_setStage_self hu stage
  · exact ⟨u, mem_timers.mpr ⟨mem_setStage_of_ne hu hi stage, hus⟩, rfl, rfl⟩

theorem remove (h : Watched e) (hb : Sound e events) {t : BatchTask α} {b : Batch α}
    (hm : (t.key, b) ∈ e.registry) (hi : b.id = t.id)
    (hr : e'.registry = (e.removeBatch t.key).registry)
    (hkept : ∀ u ∈ e.timers, u.id ≠ t.id → u ∈ e'.tasks) : Watched e' := by
  intro p hp
  rw [hr] at hp
  obtain ⟨hp, hk⟩ := Keyed.mem_others.mp hp
  obtain ⟨u, hu, huk, hui⟩ := h p hp
  refine ⟨u, mem_timers.mpr ⟨hkept u hu ?_, (mem_timers.mp hu).2⟩, huk, hui⟩
  intro hut
  have hsame := hb.entry_eq_of_id hp hm (hui.symm.trans (hut.trans hi.symm))
  exact hk (congrArg Prod.fst hsame)

end Watched

/-- A step that drops no task which has not run yet keeps every pending batch timed. -/
theorem step_watched {a : Action α β} (hs : Step e a e' new) (hb : Sound e events) (h : Watched e)
    (hkill : ∀ t ∈ e.tasks, a = .kill t.id → t.stage ≠ .spawned) : Watched e' := by
  cases hs with
  | aside ha =>
    obtain ⟨hr, ht, -, -⟩ := ha.sameBooks
    exact h.of_tasks hr fun t hm => ht ▸ (mem_timers.mp hm).1
  | @joined token key request now b _ hp =>
    intro p hp
    obtain ⟨q, hq, rfl⟩ := List.mem_map.mp hp
    obtain ⟨t, ht, hk, hi⟩ := h q hq
    refine ⟨t, ht, ?_, ?_⟩
    · by_cases hkey : q.1 = key <;> simp [hkey, hk]
    · by_cases hkey : q.1 = key <;> simp [hkey, hi, Batch.push]
  | @opened token key request now =>
    intro p hp
    rcases List.mem_append.mp hp with hp | hp
    · obtain ⟨t, ht, hk, hi⟩ := h p hp
      obtain ⟨hm, hst⟩ := mem_timers.mp ht
      exact ⟨t, mem_timers.mpr ⟨List.mem_append_left _ hm, hst⟩, hk, hi⟩
    · rw [List.mem_singleton.mp hp]
      refine ⟨⟨e.nextId, key, .spawned⟩, mem_timers.mpr ⟨?_, rfl⟩, rfl, rfl⟩
      exact List.mem_append_right _ List.mem_cons_self
  | slept => exact h.setStage _ rfl
  | rechecked => exact h.setStage _ rfl
  | @strayed t ht hst hp =>
    obtain ⟨b, hfound⟩ := hb.timer_finds ht (Stage.isTiming_of_armed hst)
    rw [hp] at hfound
    cases hfound
  | @flushed t wakeAt shutdown now b reason _ _ _ hp =>
    obtain ⟨hm, hi⟩ := pendingAs?_eq_some hp
    refine h.remove hb hm hi rfl fun u hu hne => ?_
    exact mem_setStage_of_ne (mem_timers.mp hu).1 hne _
  | @resumed t b ht hq =>
    have hask := askForWorker_asked e b
    refine h.of_tasks hask.registry fun u hu => ?_
    exact hask.kept (mem_timers.mp hu).1 (hb.id_ne_of_timer hu ht (Stage.batch?_of_queued hq))
  | @finished t b outcome ht hr =>
    rw [finish_eq, settleAll_eq]
    refine h.of_tasks rfl fun u hu => ?_
    exact Keyed.mem_others.mpr
      ⟨(mem_timers.mp hu).1, hb.id_ne_of_timer hu ht (Stage.batch?_of_running hr)⟩
  | lost ht hst => exact absurd hst (hkill _ ht rfl)
  | orphaned _ _ _ hp =>
    obtain ⟨hm, hi⟩ := pendingAs?_eq_some hp
    refine h.remove hb hm hi rfl fun u hu hne => ?_
    exact Keyed.mem_others.mpr ⟨(mem_timers.mp hu).1, hne⟩
  | @vanished t ht hst _ hp =>
    obtain ⟨b, hfound⟩ := hb.timer_finds ht hst
    rw [hp] at hfound
    cases hfound
  | @dropped t b ht hq =>
    have hi := (hb.holding t ht b (Stage.batch?_of_queued hq)).2
    refine h.of_tasks rfl fun u hu => ?_
    exact Keyed.mem_others.mpr
      ⟨(mem_timers.mp hu).1, hi ▸ hb.id_ne_of_timer hu ht (Stage.batch?_of_queued hq)⟩
  | @aborted t b ht hr =>
    refine h.of_tasks rfl fun u hu => ?_
    exact Keyed.mem_others.mpr
      ⟨(mem_timers.mp hu).1, hb.id_ne_of_timer hu ht (Stage.batch?_of_running hr)⟩

theorem Reaches.watched {o : Options} {actions : List (Action α β)}
    (h : Reaches o actions e events) (hs : Spares o (· = .spawned) actions) : Watched e := by
  induction h with
  | built hb =>
    obtain ⟨-, rfl⟩ := build_eq_ok hb
    intro p hp
    cases hp
  | @step actions e events action e' new hr hstep ih =>
    refine step_watched (step_of_step? hstep) hr.sound (ih hs.init) ?_
    rintro t ht rfl
    exact hs.last hr ht

def watches (e : Engine α β) : List (Key × Nat) := e.timers.map fun t => (t.key, t.id)

namespace Sound

theorem watches_nodup (h : Sound e events) : e.watches.Nodup := by
  have nd : (e.timers.map BatchTask.id).Nodup := h.tasks.sublist (List.filter_sublist.map _)
  refine List.Nodup.of_map Prod.snd ?_
  rw [watches, List.map_map]
  exact nd

theorem watches_perm (h : Sound e events) (hw : Watched e) :
    e.watches.Perm (e.registry.map fun p => (p.1, p.2.id)) := by
  refine (List.perm_ext_iff_of_nodup h.watches_nodup ?_).mpr ?_
  · refine List.Nodup.of_map Prod.fst ?_
    rw [List.map_map]
    exact h.keys
  · rintro ⟨key, id⟩
    constructor
    · intro hm
      obtain ⟨t, ht, heq⟩ := List.mem_map.mp hm
      obtain ⟨hk, hi⟩ := Prod.mk.inj heq
      obtain ⟨htask, hst⟩ := mem_timers.mp ht
      obtain ⟨b, hb⟩ := h.timer_finds htask hst
      obtain ⟨hb, hbi⟩ := pendingAs?_eq_some hb
      exact List.mem_map.mpr ⟨(t.key, b), hb, by rw [← hk, ← hi, ← hbi]⟩
    · intro hm
      obtain ⟨p, hp, heq⟩ := List.mem_map.mp hm
      obtain ⟨t, ht, hk, hi⟩ := hw p hp
      exact List.mem_map.mpr ⟨t, ht, by rw [← heq, hk, hi]⟩

/-- A batch is the only one under its key, so it goes by its id as well. -/
theorem removeBatch_registry (h : Sound e events) {key : Key} {b : Batch α}
    (hm : (key, b) ∈ e.registry) :
    (e.removeBatch key).registry = e.registry.filter fun p => p.2.id ≠ b.id := by
  refine List.filter_congr fun p hp => ?_
  have hiff : p.1 = key ↔ p.2.id = b.id := by
    constructor
    · intro hk
      exact congrArg (fun q => q.2.id) (List.inj_on_of_nodup_map h.keys hp hm hk)
    · intro hid
      exact congrArg Prod.fst (h.entry_eq_of_id hp hm hid)
  simp [hiff]

/-- A timer that wakes takes no batch but its own. -/
theorem wake_registry (h : Sound e events) {id : Nat} {shutdown : Bool} {now : Instant}
    (hs : e.step? (.wake id shutdown now) = some (e', new)) :
    (e'.registry = e.registry ∨ e'.registry = e.registry.filter fun p => p.2.id ≠ id) ∧
      ∀ b ∈ flushed new, b.id = id := by
  cases step_of_step? hs with
  | aside ha => cases ha
  | rechecked => exact ⟨.inl rfl, fun b hb => by cases hb⟩
  | @flushed t wakeAt _ _ b reason ht _ _ hp =>
    obtain ⟨hm, hi⟩ := pendingAs?_eq_some hp
    refine ⟨.inr ?_, fun c hc => ?_⟩
    · rw [← hi]
      exact h.removeBatch_registry hm
    · rw [List.mem_singleton.mp hc]
      exact hi

end Sound

/-- Pending batches and timers go together, one by one. -/
structure Paired (e : Engine α β) (events : List (Event α β)) : Prop where
  watches : e.watches.Perm (e.registry.map fun p => (p.1, p.2.id))
  oneTimer : ∀ p ∈ e.registry, e.watches.count (p.1, p.2.id) = 1
  finds : ∀ t ∈ e.timers, ∃ b, e.pendingAs? t.key t.id = some b
  keys : (e.registry.map Prod.fst).Nodup
  own : ∀ p ∈ e.registry, p.2.key = p.1 ∧ p.2.id < e.nextId
  shape : ∀ p ∈ e.registry, p.2.requests ≠ [] ∧ p.2.slots.length = p.2.requests.length
  ids : ((e.everyBatch events).map Batch.id).Perm (List.range e.nextId)
  takesOwn : ∀ id shutdown now e' new, e.step? (.wake id shutdown now) = some (e', new) →
    (e'.registry = e.registry ∨ e'.registry = e.registry.filter fun p => p.2.id ≠ id) ∧
      ∀ b ∈ flushed new, b.id = id
  started : ∀ b ∈ started events, b.requests ≠ []

/-- If no task is dropped before it first runs, pending batches and timers are paired, whatever else
happens in whatever order. -/
theorem timers_paired {o : Options} {actions : List (Action α β)} (h : Reaches o actions e events)
    (hs : Spares o (· = .spawned) actions) : Paired e events := by
  have hb := h.sound
  have hperm := hb.watches_perm (h.watched hs)
  constructor
  case watches => exact hperm
  case oneTimer =>
    intro p hp
    exact List.count_eq_one_of_mem hb.watches_nodup (hperm.symm.subset (List.mem_map_of_mem hp))
  case finds =>
    intro t ht
    obtain ⟨htask, hst⟩ := mem_timers.mp ht
    exact hb.timer_finds htask hst
  case keys => exact hb.keys
  case own => exact fun p hp => ⟨hb.own p hp, hb.id_lt (mem_everyBatch_of_registry hp)⟩
  case shape => exact fun p hp => hb.shape p.2 (mem_everyBatch_of_registry hp)
  case ids => exact hb.ids
  case takesOwn => exact fun id shutdown now e' new hstep => hb.wake_registry hstep
  case started =>
    intro b hst
    have hflushed := h.traced.startedFlushed b hst
    exact (hb.shape b (List.mem_append_left _ (taken_of_flushed hflushed))).1

/-- A key is opened again while the first batch under it is being executed. -/
theorem timers_paired_after_reopening : ∃ (e : Engine String String) (events : _),
    Reaches {} [.submit "t" ⟨"k"⟩ "a" ⟨0⟩, .arm 0, .wake 0 false ⟨1000000000⟩, .resume 0,
      .submit "u" ⟨"k"⟩ "b" ⟨1000000000⟩, .submit "v" ⟨"l"⟩ "c" ⟨1000000000⟩, .arm 2] e events ∧
    e.watches = [(⟨"k"⟩, 1), (⟨"l"⟩, 2)] ∧ Paired e events := by
  have h : @Reaches String String {} [.submit "t" ⟨"k"⟩ "a" ⟨0⟩, .arm 0,
      .wake 0 false ⟨1000000000⟩, .resume 0, .submit "u" ⟨"k"⟩ "b" ⟨1000000000⟩,
      .submit "v" ⟨"l"⟩ "c" ⟨1000000000⟩, .arm 2] _ _ :=
    reaches_iff_run?.mpr ⟨_, _, rfl, rfl⟩
  exact ⟨_, _, h, rfl, timers_paired h (spares_of_forall_ne (by simp))⟩

end Coalesce.Engine
