import Coalesce.Proofs.Registry

/-! # Every step keeps the books

One lemma for each thing that can be done to the registry or to the tasks; every step is made of
these. -/
namespace Coalesce.Engine
open Keyed
variable {α β : Type} {e e' : Engine α β} {events new : List (Event α β)}

theorem everyBatch_append (e : Engine α β) (events new : List (Event α β)) :
    e.everyBatch (events ++ new) = taken events ++ (taken new ++ e.batches) := by
  simp [everyBatch, taken, List.append_assoc]

theorem SameBooks.everyBatch (h : SameBooks e e') (ht : taken new = []) :
    e'.everyBatch (events ++ new) = e.everyBatch events := by
  rw [everyBatch_append, ht, batches, h.registry]
  rfl

namespace Sound

theorem congr (h : Sound e events) (hs : SameBooks e e') (ht : taken new = []) :
    Sound e' (events ++ new) where
  keys := by rw [hs.registry]; exact h.keys
  own := by rw [hs.registry]; exact h.own
  ids := by rw [hs.everyBatch ht, hs.nextId]; exact h.ids
  slots := by rw [hs.everyBatch ht, hs.calls]; exact h.slots
  shape := by rw [hs.everyBatch ht]; exact h.shape
  tasks := by rw [hs.tasks]; exact h.tasks
  timing := by rw [hs.tasks, hs.registry]; exact h.timing
  holding := by
    intro t hm b hb
    obtain ⟨hf, hi⟩ := h.holding t (hs.tasks ▸ hm) b hb
    exact ⟨flushed_mono hf _, hi⟩

theorem of_sameBooks (h : Sound e events) (hs : SameBooks e e') : Sound e' events := by
  have hc : Sound e' (events ++ []) := h.congr hs rfl
  rwa [List.append_nil] at hc

end Sound

theorem map_id_setStage (e : Engine α β) (id : Nat) (stage : Stage α) :
    (e.setStage id stage).tasks.map BatchTask.id = e.tasks.map BatchTask.id := by
  rw [setStage, List.map_map]
  refine List.map_congr_left fun t _ => ?_
  by_cases h : t.id = id <;> simp [h]

theorem perm_setStage (nd : (e.tasks.map BatchTask.id).Nodup) {t : BatchTask α} (ht : t ∈ e.tasks)
    (stage : Stage α) :
    (e.setStage t.id stage).tasks.Perm
      ({ t with stage := stage } :: others BatchTask.id t.id e.tasks) :=
  perm_map_ite (fun u : BatchTask α => { u with stage := stage }) nd ht

theorem mem_setStage (nd : (e.tasks.map BatchTask.id).Nodup) {t : BatchTask α} (ht : t ∈ e.tasks)
    {stage : Stage α} {u : BatchTask α} (hu : u ∈ (e.setStage t.id stage).tasks) :
    u = { t with stage := stage } ∨ u ∈ e.tasks ∧ u.id ≠ t.id := by
  have hm := (perm_setStage nd ht stage).subset hu
  rw [List.mem_cons, mem_others] at hm
  exact hm

theorem nodup_endTask (nd : (e.tasks.map BatchTask.id).Nodup) (id : Nat) :
    ((e.endTask id).tasks.map BatchTask.id).Nodup :=
  nd.sublist ((others_sublist BatchTask.id id e.tasks).map _)

namespace Sound

/-- A task may change its stage as long as it times its batch, or holds the batch it has taken. -/
theorem setStage (h : Sound e events) {t : BatchTask α} (ht : t ∈ e.tasks) (stage : Stage α)
    (htiming : stage.isTiming = true → t.stage.isTiming = true)
    (hholding : ∀ b, stage.batch? = some b → b ∈ flushed events ∧ b.id = t.id) :
    Sound (e.setStage t.id stage) events where
  keys := h.keys
  own := h.own
  ids := h.ids
  slots := h.slots
  shape := h.shape
  tasks := by rw [map_id_setStage]; exact h.tasks
  timing := by
    intro u hu hs
    rcases mem_setStage h.tasks ht hu with rfl | ⟨hu, -⟩
    · exact h.timing t ht (htiming hs)
    · exact h.timing u hu hs
  holding := by
    intro u hu b hb
    rcases mem_setStage h.tasks ht hu with rfl | ⟨hu, -⟩
    · exact hholding b hb
    · exact h.holding u hu b hb

theorem endTask (h : Sound e events) (id : Nat) : Sound (e.endTask id) events where
  keys := h.keys
  own := h.own
  ids := h.ids
  slots := h.slots
  shape := h.shape
  tasks := nodup_endTask h.tasks id
  timing := fun t ht => h.timing t (List.mem_of_mem_filter ht)
  holding := fun t ht => h.holding t (List.mem_of_mem_filter ht)

end Sound

theorem perm_removeBatch (nd : (e.registry.map Prod.fst).Nodup) {key : Key} {b : Batch α}
    (hb : (key, b) ∈ e.registry) : e.registry.Perm ((key, b) :: (e.removeBatch key).registry) :=
  perm_cons_others nd hb

theorem perm_everyBatch_removeBatch (nd : (e.registry.map Prod.fst).Nodup) {key : Key}
    {b : Batch α} (hb : (key, b) ∈ e.registry) (ht : taken new = [b]) :
    ((e.removeBatch key).everyBatch (events ++ new)).Perm (e.everyBatch events) := by
  rw [everyBatch_append, ht]
  exact ((perm_removeBatch nd hb).map Prod.snd).symm.append_left _

theorem perm_joinBatch (nd : (e.registry.map Prod.fst).Nodup) {key : Key} {b : Batch α}
    (hb : (key, b) ∈ e.registry) (token : String) (request : α) (now : Instant) :
    (e.joinBatch token key request now).1.registry.Perm
      ((key, b.push request e.calls.length now) :: (e.removeBatch key).registry) :=
  perm_map_ite (fun p : Key × Batch α => (p.1, p.2.push request e.calls.length now)) nd hb

namespace Sound

/-- A task takes its batch out of the registry. Of the tasks that go on timing it is none. -/
theorem remove (h : Sound e events) {t : BatchTask α} {b : Batch α} (hb : (t.key, b) ∈ e.registry)
    (hi : b.id = t.id) (hnew : taken new = [b]) (tasks : List (BatchTask α))
    (htasks : (tasks.map BatchTask.id).Nodup)
    (htiming : ∀ u ∈ tasks, u.stage.isTiming = true → u ∈ e.tasks ∧ u.id ≠ t.id)
    (hholding : ∀ u ∈ tasks, ∀ c, u.stage.batch? = some c →
      c ∈ flushed (events ++ new) ∧ c.id = u.id) :
    Sound { e.removeBatch t.key with tasks := tasks } (events ++ new) := by
  have hall : ((e.removeBatch t.key).everyBatch (events ++ new)).Perm (e.everyBatch events) :=
    perm_everyBatch_removeBatch h.keys hb hnew
  constructor
  case keys => exact h.keys.sublist ((others_sublist Prod.fst t.key e.registry).map _)
  case own => exact fun p hp => h.own p (List.mem_of_mem_filter hp)
  case ids => exact (hall.map Batch.id).trans h.ids
  case slots => exact (hall.flatMap_right Batch.slots).trans h.slots
  case shape => exact fun c hc => h.shape c (hall.subset hc)
  case tasks => exact htasks
  case timing =>
    intro u hu hs
    obtain ⟨hu, hne⟩ := htiming u hu hs
    obtain ⟨c, hc, hci⟩ := h.timing u hu hs
    refine ⟨c, mem_others.mpr ⟨hc, ?_⟩, hci⟩
    -- under one key there is one batch only, and its id is that of `t`
    intro hk
    have heq := List.inj_on_of_nodup_map h.keys hc hb hk
    have hcb : c = b := congrArg Prod.snd heq
    exact hne (hci ▸ hcb ▸ hi)
  case holding => exact hholding

theorem takeBatch (h : Sound e events) {t : BatchTask α} (ht : t ∈ e.tasks) {b : Batch α}
    (hb : (t.key, b) ∈ e.registry) (hi : b.id = t.id) (reason : FlushReason) (now : Instant) :
    Sound (e.takeBatch t b reason) (events ++ [.flushed b reason now]) := by
  have hnew : taken [(.flushed b reason now : Event α β)] = [b] := rfl
  have hremove := h.remove hb hi hnew (e.setStage t.id (.queued b)).tasks
    (by rw [map_id_setStage]; exact h.tasks)
    (by
      intro u hu hs
      rcases mem_setStage h.tasks ht hu with rfl | hu
      · cases hs
      · exact hu)
    (by
      intro u hu c hc
      rw [flushed_append]
      rcases mem_setStage h.tasks ht hu with rfl | ⟨hu, -⟩
      · cases hc
        exact ⟨List.mem_append_right _ List.mem_cons_self, hi⟩
      · obtain ⟨hf, hci⟩ := h.holding u hu c hc
        exact ⟨List.mem_append_left _ hf, hci⟩)
  exact hremove.of_sameBooks ⟨rfl, rfl, rfl, rfl⟩

theorem orphan (h : Sound e events) {t : BatchTask α} {b : Batch α}
    (hb : (t.key, b) ∈ e.registry) (hi : b.id = t.id) :
    Sound ((e.endTask t.id).removeBatch t.key) (events ++ [.orphaned b]) := by
  refine h.remove hb hi rfl (e.endTask t.id).tasks (nodup_endTask h.tasks t.id) ?_ ?_
  · intro u hu _
    exact mem_others.mp hu
  · intro u hu c hc
    obtain ⟨hf, hci⟩ := h.holding u (List.mem_of_mem_filter hu) c hc
    exact ⟨flushed_mono hf _, hci⟩

theorem joinBatch (h : Sound e events) {key : Key} {b : Batch α} (hb : (key, b) ∈ e.registry)
    (token : String) (request : α) (now : Instant) :
    Sound (e.joinBatch token key request now).1
      (events ++ (e.joinBatch token key request now).2) := by
  set pushed := b.push request e.calls.length now
  have hbefore : (e.everyBatch events).Perm
      (b :: (taken events ++ (e.removeBatch key).batches)) :=
    (((perm_removeBatch h.keys hb).map Prod.snd).append_left _).trans List.perm_middle
  have hafter : ((e.joinBatch token key request now).1.everyBatch
      (events ++ (e.joinBatch token key request now).2)).Perm
      (pushed :: (taken events ++ (e.removeBatch key).batches)) := by
    rw [everyBatch_append]
    exact (((perm_joinBatch h.keys hb token request now).map Prod.snd).append_left _).trans
      List.perm_middle
  constructor
  case keys =>
    have hk : (e.joinBatch token key request now).1.registry.map Prod.fst =
        e.registry.map Prod.fst := by
      rw [Engine.joinBatch, List.map_map]
      refine List.map_congr_left fun p _ => ?_
      by_cases hp : p.1 = key <;> simp [hp]
    rw [hk]
    exact h.keys
  case own =>
    intro p hp
    obtain ⟨q, hq, rfl⟩ := List.mem_map.mp hp
    have hown := h.own q hq
    by_cases hk : q.1 = key <;> simp [hk, Batch.push, hown]
  case ids => exact (hafter.map Batch.id).trans ((hbefore.map Batch.id).symm.trans h.ids)
  case slots =>
    have hold := (hbefore.flatMap_right Batch.slots).symm.trans h.slots
    have hlen : (e.joinBatch token key request now).1.calls.length = e.calls.length + 1 := by
      simp [Engine.joinBatch]
    rw [hlen, List.range_succ]
    refine (hafter.flatMap_right Batch.slots).trans (List.Perm.trans ?_ (hold.append_right _))
    simp only [List.flatMap_cons, pushed, Batch.push, List.append_assoc]
    exact List.perm_append_comm.append_left _
  case shape =>
    intro c hc
    rcases List.mem_cons.mp (hafter.subset hc) with rfl | hc
    · obtain ⟨-, hlen⟩ := h.shape b (mem_everyBatch_of_registry hb)
      simp [pushed, Batch.push, hlen]
    · exact h.shape c (hbefore.symm.subset (List.mem_cons_of_mem _ hc))
  case tasks => exact h.tasks
  case timing =>
    intro t ht hs
    obtain ⟨c, hc, hi⟩ := h.timing t ht hs
    refine ⟨if t.key = key then c.push request e.calls.length now else c, ?_, ?_⟩
    · refine List.mem_map.mpr ⟨(t.key, c), hc, ?_⟩
      by_cases hk : t.key = key <;> simp [hk]
    · by_cases hk : t.key = key <;> simp [hk, Batch.push, hi]
  case holding =>
    intro t ht c hc
    obtain ⟨hf, hi⟩ := h.holding t ht c hc
    exact ⟨flushed_mono hf _, hi⟩

theorem openBatch (h : Sound e events) {key : Key} (hp : e.pending? key = none)
    (token : String) (request : α) (now : Instant) :
    Sound (e.openBatch token key request now).1
      (events ++ (e.openBatch token key request now).2) := by
  set b := (Batch.empty e.nextId key now).push request e.calls.length now
  have hall : (e.openBatch token key request now).1.everyBatch
      (events ++ (e.openBatch token key request now).2) = e.everyBatch events ++ [b] := by
    rw [everyBatch_append, batches, Engine.openBatch, List.map_append, everyBatch,
      List.append_assoc]
    rfl
  constructor
  case keys =>
    rw [Engine.openBatch, List.map_append]
    refine List.nodup_append.mpr ⟨h.keys, List.nodup_singleton _, ?_⟩
    intro k hk k' hk' heq
    have hkey : k = key := heq.trans (List.mem_singleton.mp hk')
    exact notMem_keys_of_pending? hp (hkey ▸ hk)
  case own =>
    intro p hp
    rcases List.mem_append.mp hp with hp | hp
    · exact h.own p hp
    · rw [List.mem_singleton.mp hp]
      rfl
  case ids =>
    rw [hall, List.map_append]
    exact (h.ids.append_right _).trans (by rw [Engine.openBatch, List.range_succ]; rfl)
  case slots =>
    have hlen : (e.openBatch token key request now).1.calls.length = e.calls.length + 1 := by
      simp [Engine.openBatch]
    rw [hall, hlen, List.flatMap_append, List.range_succ]
    exact h.slots.append_right _
  case shape =>
    intro c hc
    rw [hall] at hc
    rcases List.mem_append.mp hc with hc | hc
    · exact h.shape c hc
    · rw [List.mem_singleton.mp hc]
      simp [b, Batch.push, Batch.empty]
  case tasks =>
    rw [Engine.openBatch, List.map_append]
    refine List.nodup_append.mpr ⟨h.tasks, List.nodup_singleton _, ?_⟩
    intro id hid id' hid' heq
    obtain ⟨t, ht, rfl⟩ := List.mem_map.mp hid
    have hlt := h.task_id_lt ht
    rw [List.mem_singleton.mp hid'] at heq
    exact Nat.ne_of_lt hlt heq
  case timing =>
    intro t ht hs
    rcases List.mem_append.mp ht with ht | ht
    · obtain ⟨c, hc, hi⟩ := h.timing t ht hs
      exact ⟨c, List.mem_append_left _ hc, hi⟩
    · rw [List.mem_singleton.mp ht]
      exact ⟨b, List.mem_append_right _ List.mem_cons_self, rfl⟩
  case holding =>
    intro t ht c hc
    rcases List.mem_append.mp ht with ht | ht
    · obtain ⟨hf, hi⟩ := h.holding t ht c hc
      exact ⟨flushed_mono hf _, hi⟩
    · rw [List.mem_singleton.mp ht] at hc
      cases hc

end Sound

theorem Asked.sound {b : Batch α} (ha : Asked e b e' new) (h : Sound e events) {t : BatchTask α}
    (ht : t ∈ e.tasks) (hb : t.stage.batch? = some b) : Sound e' (events ++ new) := by
  obtain ⟨hf, hi⟩ := h.holding t ht b hb
  cases ha with
  | abandoned hask =>
    refine Sound.congr ?_ (settleAll_sameBooks _ _) (overlooks_taken.settlements _ _)
    exact (h.endTask b.id).of_sameBooks ⟨rfl, rfl, rfl, rfl⟩
  | waiting hask =>
    rw [List.append_nil, hi]
    have hset := h.setStage ht (.queued b) (by intro hs; cases hs)
      (by intro c hc; cases hc; exact ⟨hf, hi⟩)
    exact hset.of_sameBooks ⟨rfl, rfl, rfl, rfl⟩
  | granted hask =>
    rw [hi]
    have hset := h.setStage ht (.running b) (by intro hs; cases hs)
      (by intro c hc; cases hc; exact ⟨hf, hi⟩)
    exact hset.congr ⟨rfl, rfl, rfl, rfl⟩ rfl

theorem step_sound {a : Action α β} (hs : Step e a e' new) (h : Sound e events) :
    Sound e' (events ++ new) := by
  cases hs with
  | aside ha => exact h.congr ha.sameBooks (overlooks_taken.aside ha)
  | joined _ hp => exact h.joinBatch (mem_registry_of_pending? hp) ..
  | opened _ hp => exact h.openBatch hp ..
  | @slept t b ht hst _ =>
    rw [List.append_nil]
    refine h.setStage ht _ (fun _ => Stage.isTiming_of_armed hst) ?_
    intro c hc
    cases hc
  | strayed ht =>
    rw [List.append_nil]
    exact h.endTask _
  | rechecked ht hst =>
    rw [List.append_nil]
    refine h.setStage ht _ (fun _ => Stage.isTiming_of_sleeping hst) ?_
    intro c hc
    cases hc
  | @flushed t wakeAt shutdown now b reason ht hst _ hp _ =>
    obtain ⟨hb, hi⟩ := pendingAs?_eq_some hp
    exact h.takeBatch ht hb hi reason now
  | @resumed t b ht hst =>
    exact (askForWorker_asked e b).sound h ht (Stage.batch?_of_queued hst)
  | @finished t b outcome ht hst =>
    rw [finish_eq]
    refine Sound.congr ?_ (settleAll_sameBooks _ _) (overlooks_taken.ending ..)
    exact (h.endTask b.id).of_sameBooks ⟨rfl, rfl, rfl, rfl⟩
  | lost =>
    rw [List.append_nil]
    exact h.endTask _
  | orphaned ht _ _ hp =>
    obtain ⟨hb, hi⟩ := pendingAs?_eq_some hp
    exact (h.orphan hb hi).of_sameBooks (release_sameBooks ..)
  | vanished =>
    rw [List.append_nil]
    exact h.endTask _
  | @dropped t b ht hst =>
    rw [List.append_nil]
    refine Sound.of_sameBooks ?_ (release_sameBooks ..)
    exact (h.endTask t.id).of_sameBooks ⟨rfl, rfl, rfl, rfl⟩
  | @aborted t b ht hst =>
    rw [List.append_nil]
    refine Sound.of_sameBooks ?_ (release_sameBooks ..)
    exact (h.endTask b.id).of_sameBooks ⟨rfl, rfl, rfl, rfl⟩

end Coalesce.Engine
