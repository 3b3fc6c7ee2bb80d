import Coalesce.Proofs.RegistrySteps

/-! # Executions

The executor is invoked at most once with a batch, and never with one that was given up. -/
namespace Coalesce.Engine
variable {α β : Type} {e e' : Engine α β} {events new : List (Event α β)}

structure Traced (e : Engine α β) (events : List (Event α β)) : Prop where
  startedFlushed : ∀ b ∈ started events, b ∈ flushed events
  startedOnce : ((started events).map Batch.id).Nodup
  abandonedFlushed : ∀ b ∈ abandoned events, b ∈ flushed events
  abandonedUnstarted : ∀ b ∈ abandoned events, b ∉ started events
  queued : ∀ t ∈ e.tasks, ∀ b, t.stage = .queued b → b ∉ started events ∧ b ∉ abandoned events
  running : ∀ t ∈ e.tasks, ∀ b, t.stage = .running b → b ∈ started events ∧ b ∉ abandoned events

namespace Sound

theorem notMem_flushed (h : Sound e events) {key : Key} {b : Batch α}
    (hb : (key, b) ∈ e.registry) : b ∉ flushed events := by
  intro hf
  have nd : (taken events ++ e.batches).Nodup := List.Nodup.of_map _ h.ids_nodup
  exact (List.nodup_append.mp nd).2.2 b (taken_of_flushed hf) b (List.mem_map_of_mem hb) rfl

theorem ne_of_batch? (h : Sound e events) {b c : Batch α} {u : BatchTask α} (hu : u ∈ e.tasks)
    (hne : u.id ≠ b.id) (hc : u.stage.batch? = some c) : c ≠ b := by
  rintro rfl
  exact hne (h.holding u hu c hc).2.symm

end Sound

namespace Traced

/-- Nothing is started or given up, and no task takes a batch. -/
theorem of_subset (h : Traced e events) (hs : started new = []) (ha : abandoned new = [])
    (htasks : ∀ t ∈ e'.tasks, t.stage.isTiming = false → t ∈ e.tasks) :
    Traced e' (events ++ new) := by
  have hst : started (events ++ new) = started events := by simp [hs]
  have hab : abandoned (events ++ new) = abandoned events := by simp [ha]
  constructor
  case startedFlushed => exact fun b hb => flushed_mono (h.startedFlushed b (hst ▸ hb)) new
  case startedOnce =>
    rw [hst]
    exact h.startedOnce
  case abandonedFlushed => exact fun b hb => flushed_mono (h.abandonedFlushed b (hab ▸ hb)) new
  case abandonedUnstarted =>
    rw [hst, hab]
    exact h.abandonedUnstarted
  case queued =>
    rw [hst, hab]
    exact fun t ht b hb => h.queued t (htasks t ht (by rw [hb]; rfl)) b hb
  case running =>
    rw [hst, hab]
    exact fun t ht b hb => h.running t (htasks t ht (by rw [hb]; rfl)) b hb

theorem of_tasks (h : Traced e events) (htasks : e'.tasks = e.tasks) : Traced e' events := by
  have hsame : Traced e' (events ++ []) := h.of_subset rfl rfl fun t ht _ => htasks ▸ ht
  rwa [List.append_nil] at hsame

theorem takeBatch (h : Traced e events) (hb : Sound e events) {t : BatchTask α}
    (ht : t ∈ e.tasks) {b : Batch α} (hm : (t.key, b) ∈ e.registry) (reason : FlushReason)
    (now : Instant) : Traced (e.takeBatch t b reason) (events ++ [.flushed b reason now]) := by
  have hnew := hb.notMem_flushed hm
  have hst : started (events ++ [.flushed b reason now]) = started events := by
    simp [started, Event.started?]
  have hab : abandoned (events ++ [.flushed b reason now]) = abandoned events := by
    simp [abandoned, Event.abandoned?]
  constructor
  case startedFlushed => exact fun c hc => flushed_mono (h.startedFlushed c (hst ▸ hc)) _
  case startedOnce =>
    rw [hst]
    exact h.startedOnce
  case abandonedFlushed => exact fun c hc => flushed_mono (h.abandonedFlushed c (hab ▸ hc)) _
  case abandonedUnstarted =>
    rw [hst, hab]
    exact h.abandonedUnstarted
  case queued =>
    rw [hst, hab]
    intro u hu c hc
    rcases mem_setStage hb.tasks ht hu with rfl | ⟨hu, -⟩
    · cases hc
      exact ⟨fun hs => hnew (h.startedFlushed b hs), fun ha => hnew (h.abandonedFlushed b ha)⟩
    · exact h.queued u hu c hc
  case running =>
    rw [hst, hab]
    intro u hu c hc
    rcases mem_setStage hb.tasks ht hu with rfl | ⟨hu, -⟩
    · cases hc
    · exact h.running u hu c hc

theorem abandon (h : Traced e events) (hb : Sound e events) {t : BatchTask α} (ht : t ∈ e.tasks)
    {b : Batch α} (hq : t.stage = .queued b) (hs : started new = []) (ha : abandoned new = [b]) :
    Traced (e.endTask b.id) (events ++ new) := by
  obtain ⟨hflushed, -⟩ := hb.holding t ht b (Stage.batch?_of_queued hq)
  obtain ⟨hunstarted, -⟩ := h.queued t ht b hq
  have hst : started (events ++ new) = started events := by simp [hs]
  have hab : abandoned (events ++ new) = abandoned events ++ [b] := by simp [ha]
  constructor
  case startedFlushed => exact fun c hc => flushed_mono (h.startedFlushed c (hst ▸ hc)) new
  case startedOnce =>
    rw [hst]
    exact h.startedOnce
  case abandonedFlushed =>
    intro c hc
    rw [hab] at hc
    rcases List.mem_append.mp hc with hc | hc
    · exact flushed_mono (h.abandonedFlushed c hc) new
    · rw [List.mem_singleton.mp hc]
      exact flushed_mono hflushed new
  case abandonedUnstarted =>
    rw [hst, hab]
    intro c hc
    rcases List.mem_append.mp hc with hc | hc
    · exact h.abandonedUnstarted c hc
    · rw [List.mem_singleton.mp hc]
      exact hunstarted
  case queued =>
    rw [hst, hab]
    intro u hu c hc
    obtain ⟨hu, hne⟩ := Keyed.mem_others.mp hu
    obtain ⟨hcs, hca⟩ := h.queued u hu c hc
    have hcb := hb.ne_of_batch? hu hne (Stage.batch?_of_queued hc)
    exact ⟨hcs, by simp [hca, hcb]⟩
  case running =>
    rw [hst, hab]
    intro u hu c hc
    obtain ⟨hu, hne⟩ := Keyed.mem_others.mp hu
    obtain ⟨hcs, hca⟩ := h.running u hu c hc
    have hcb := hb.ne_of_batch? hu hne (Stage.batch?_of_running hc)
    exact ⟨hcs, by simp [hca, hcb]⟩

theorem start (h : Traced e events) (hb : Sound e events) {t : BatchTask α} (ht : t ∈ e.tasks)
    {b : Batch α} (hq : t.stage = .queued b) :
    Traced (e.setStage b.id (.running b)) (events ++ [.started b]) := by
  obtain ⟨hflushed, hi⟩ := hb.holding t ht b (Stage.batch?_of_queued hq)
  obtain ⟨hunstarted, hunabandoned⟩ := h.queued t ht b hq
  have hst : started (events ++ [.started b]) = started events ++ [b] := by
    simp [started, Event.started?]
  have hab : abandoned (events ++ [.started b]) = abandoned events := by
    simp [abandoned, Event.abandoned?]
  rw [hi]
  constructor
  case startedFlushed =>
    intro c hc
    rw [hst] at hc
    rcases List.mem_append.mp hc with hc | hc
    · exact flushed_mono (h.startedFlushed c hc) _
    · rw [List.mem_singleton.mp hc]
      exact flushed_mono hflushed _
  case startedOnce =>
    rw [hst, List.map_append]
    refine List.nodup_append.mpr ⟨h.startedOnce, List.nodup_singleton _, ?_⟩
    rintro id hid id' hid' rfl
    obtain ⟨c, hc, hci⟩ := List.mem_map.mp hid
    have hcb : c = b :=
      hb.eq_of_id (List.mem_append_left _ (taken_of_flushed (h.startedFlushed c hc)))
        (List.mem_append_left _ (taken_of_flushed hflushed))
        (hci.trans (List.mem_singleton.mp hid'))
    exact hunstarted (hcb ▸ hc)
  case abandonedFlushed => exact fun c hc => flushed_mono (h.abandonedFlushed c (hab ▸ hc)) _
  case abandonedUnstarted =>
    rw [hst, hab]
    intro c hc
    have hcb : c ≠ b := fun he => hunabandoned (he ▸ hc)
    simp [h.abandonedUnstarted c hc, hcb]
  case queued =>
    rw [hst, hab]
    intro u hu c hc
    rcases mem_setStage hb.tasks ht hu with rfl | ⟨hu, hne⟩
    · cases hc
    · obtain ⟨hcs, hca⟩ := h.queued u hu c hc
      have hcb := hb.ne_of_batch? hu (hi ▸ hne) (Stage.batch?_of_queued hc)
      exact ⟨by simp [hcs, hcb], hca⟩
  case running =>
    rw [hst, hab]
    intro u hu c hc
    rcases mem_setStage hb.tasks ht hu with rfl | ⟨hu, -⟩
    · cases hc
      exact ⟨List.mem_append_right _ List.mem_cons_self, hunabandoned⟩
    · obtain ⟨hcs, hca⟩ := h.running u hu c hc
      exact ⟨List.mem_append_left _ hcs, hca⟩

end Traced

theorem asked_traced {b : Batch α} (hask : Asked e b e' new) (hb : Sound e events)
    (h : Traced e events) {t : BatchTask α} (ht : t ∈ e.tasks) (hq : t.stage = .queued b) :
    Traced e' (events ++ new) := by
  cases hask with
  | abandoned =>
    rw [settleAll_eq]
    have hs : started (.abandoned b :: settlements (refusals b.slots) e.calls) = [] :=
      overlooks_started.settlements ..
    have ha : abandoned (.abandoned b :: settlements (refusals b.slots) e.calls) = [b] :=
      congrArg (b :: ·) (overlooks_abandoned.settlements ..)
    exact (h.abandon hb ht hq hs ha).of_tasks rfl
  | waiting =>
    obtain ⟨-, hi⟩ := hb.holding t ht b (Stage.batch?_of_queued hq)
    refine h.of_subset rfl rfl ?_
    rw [hi]
    intro u hu _
    rcases mem_setStage hb.tasks ht hu with rfl | ⟨hu, -⟩
    · rw [← hq]
      exact ht
    · exact hu
  | granted => exact (h.start hb ht hq).of_tasks rfl

theorem step_traced {a : Action α β} (hs : Step e a e' new) (hb : Sound e events)
    (h : Traced e events) : Traced e' (events ++ new) := by
  cases hs with
  | aside ha =>
    refine h.of_subset (overlooks_started.aside ha) (overlooks_abandoned.aside ha) ?_
    exact fun t ht _ => ha.sameBooks.tasks ▸ ht
  | joined => exact h.of_subset rfl rfl fun t ht _ => ht
  | opened =>
    refine h.of_subset rfl rfl ?_
    intro t ht hst
    rcases List.mem_append.mp ht with ht | ht
    · exact ht
    · rw [List.mem_singleton.mp ht] at hst
      cases hst
  | slept ht =>
    refine h.of_subset rfl rfl ?_
    intro u hu hst
    rcases mem_setStage hb.tasks ht hu with rfl | ⟨hu, -⟩
    · cases hst
    · exact hu
  | rechecked ht =>
    refine h.of_subset rfl rfl ?_
    intro u hu hst
    rcases mem_setStage hb.tasks ht hu with rfl | ⟨hu, -⟩
    · cases hst
    · exact hu
  | flushed ht _ _ hp => exact h.takeBatch hb ht (pendingAs?_eq_some hp).1 ..
  | resumed ht hq => exact asked_traced (askForWorker_asked ..) hb h ht hq
  | finished =>
    rw [finish_eq, settleAll_eq]
    exact h.of_subset (overlooks_started.ending ..) (overlooks_abandoned.ending ..)
      fun t ht _ => List.mem_of_mem_filter ht
  | strayed => exact h.of_subset rfl rfl fun t ht _ => List.mem_of_mem_filter ht
  | lost => exact h.of_subset rfl rfl fun t ht _ => List.mem_of_mem_filter ht
  | orphaned => exact h.of_subset rfl rfl fun t ht _ => List.mem_of_mem_filter ht
  | vanished => exact h.of_subset rfl rfl fun t ht _ => List.mem_of_mem_filter ht
  | dropped => exact h.of_subset rfl rfl fun t ht _ => List.mem_of_mem_filter ht
  | aborted => exact h.of_subset rfl rfl fun t ht _ => List.mem_of_mem_filter ht

theorem Asked.running_of_started {c : Batch α} (hask : Asked e c e' new) {t : BatchTask α}
    (ht : t ∈ e.tasks) (hi : c.id = t.id) {b : Batch α} (hb : b ∈ started new) :
    ∃ u ∈ e'.tasks, u.id = b.id ∧ u.stage = .running b := by
  cases hask with
  | abandoned =>
    have hnone : started (.abandoned c :: settlements (refusals c.slots) e.calls) = [] :=
      overlooks_started.settlements ..
    rw [hnone] at hb
    cases hb
  | waiting => cases hb
  | granted =>
    rw [List.mem_singleton.mp hb, hi]
    exact ⟨_, mem_setStage_self ht _, rfl, rfl⟩

theorem step_running_of_started {a : Action α β} (hs : Step e a e' new) (h : Sound e events)
    {b : Batch α} (hb : b ∈ started new) : ∃ u ∈ e'.tasks, u.id = b.id ∧ u.stage = .running b := by
  cases hs with
  | aside ha =>
    rw [show started new = [] from overlooks_started.aside ha] at hb
    cases hb
  | @resumed t c ht hq =>
    have hi := (h.holding t ht c (Stage.batch?_of_queued hq)).2
    exact (askForWorker_asked e c).running_of_started ht hi hb
  | finished =>
    rw [finish_eq, show started _ = [] from overlooks_started.ending ..] at hb
    cases hb
  | _ => cases hb

theorem fresh_sound (o : Options) : Sound (fresh o : Engine α β) [] := by
  constructor <;> simp [fresh, everyBatch, batches, taken]

theorem fresh_traced (o : Options) : Traced (fresh o : Engine α β) [] := by
  constructor <;> simp [fresh, started, abandoned]

namespace Reaches
variable {o : Options} {actions : List (Action α β)}

theorem sound (h : Reaches o actions e events) : Sound e events := by
  induction h with
  | built hb =>
    obtain ⟨-, rfl⟩ := build_eq_ok hb
    exact fresh_sound o
  | step _ hs ih => exact step_sound (step_of_step? hs) ih

theorem traced (h : Reaches o actions e events) : Traced e events := by
  induction h with
  | built hb =>
    obtain ⟨-, rfl⟩ := build_eq_ok hb
    exact fresh_traced o
  | step hr hs ih => exact step_traced (step_of_step? hs) hr.sound ih

end Reaches

end Coalesce.Engine
