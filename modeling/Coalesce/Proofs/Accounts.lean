import Coalesce.Proofs.Delivery

/-! # Every slot is accounted for

A slot is empty for as long as its batch is pending or a task holds it. After that it has what was
put into it, or it was released with a task that was dropped. -/
namespace Coalesce
variable {α β : Type}

theorem slotAt?_concat {calls : List (Call β)} {call : Call β} {s : Ticket} {slot : Slot β}
    (h : slotAt? (calls ++ [call]) s = some slot) :
    slotAt? calls s = some slot ∨ s = calls.length ∧ slot = call.slot := by
  rcases Nat.lt_trichotomy s calls.length with hlt | heq | hgt
  · rw [slotAt?, List.getElem?_append_left hlt] at h
    exact .inl h
  · subst heq
    simp only [slotAt?, List.getElem?_concat_length, Option.map_some, Option.some.injEq] at h
    exact .inr ⟨rfl, h.symm⟩
  · have hnone : (calls ++ [call])[s]? = none := by
      rw [List.getElem?_eq_none_iff, List.length_append, List.length_singleton]
      omega
    rw [slotAt?, hnone] at h
    cases h

/-- Releasing slots empties none, and fills none. -/
theorem slotAt?_of_releaseAll {slots : List Ticket} {calls : List (Call β)} {s : Ticket}
    {slot : Slot β} (h : slotAt? (releaseAll slots calls) s = some slot) :
    slotAt? calls s = some slot ∨ s ∈ slots ∧ slot = .released := by
  induction slots generalizing calls with
  | nil => exact .inl h
  | cons first rest ih =>
    rw [releaseAll, List.foldl_cons] at h
    rcases ih h with h | ⟨hs, hslot⟩
    · by_cases hs : first = s
      · subst hs
        rw [slotAt?, List.getElem?_modify_eq] at h
        obtain ⟨call, hc, hslot⟩ := Option.map_eq_some_iff.mp h
        obtain ⟨old, ho, rfl⟩ := Option.map_eq_some_iff.mp hc
        cases hold : old.slot with
        | empty =>
          rw [hold] at hslot
          exact .inr ⟨List.mem_cons_self, hslot.symm⟩
        | _ =>
          rw [hold] at hslot
          refine .inl ?_
          rw [slotAt?, ho, ← hslot, Option.map_some]
      · rw [slotAt?, List.getElem?_modify_ne _ _ hs] at h
        exact .inl h
    · exact .inr ⟨List.mem_cons_of_mem _ hs, hslot⟩

theorem slotAt?_releaseAll_ne_empty {slots : List Ticket} {s : Ticket} (hs : s ∈ slots)
    (calls : List (Call β)) : slotAt? (releaseAll slots calls) s ≠ some .empty := by
  induction slots generalizing calls with
  | nil => cases hs
  | cons first rest ih =>
    rw [releaseAll, List.foldl_cons]
    rcases List.mem_cons.mp hs with rfl | hs
    · intro h
      rcases slotAt?_of_releaseAll h with h | ⟨-, hslot⟩
      · rw [slotAt?, List.getElem?_modify_eq] at h
        obtain ⟨call, hc, hslot⟩ := Option.map_eq_some_iff.mp h
        obtain ⟨old, -, rfl⟩ := Option.map_eq_some_iff.mp hc
        cases hold : old.slot <;> simp [hold] at hslot
      · cases hslot
    · exact ih hs _

namespace Engine
variable {e e' : Engine α β} {events new : List (Event α β)} {b c : Batch α}

structure Accounted (e : Engine α β) (events : List (Event α β)) : Prop where
  empty : ∀ s, slotAt? e.calls s = some .empty → ∃ b, e.Unsettled b ∧ s ∈ b.slots
  filled : ∀ s result, slotAt? e.calls s = some (.filled result) → (s, result) ∈ settled events

theorem Sound.mem_batches_removeBatch (h : Sound e events) {key : Key}
    (hm : (key, b) ∈ e.registry) (hc : c ∈ e.batches) :
    c = b ∨ c ∈ (e.removeBatch key).batches := by
  obtain ⟨p, hp, rfl⟩ := List.mem_map.mp hc
  by_cases hk : p.1 = key
  · exact .inl (congrArg Prod.snd (List.inj_on_of_nodup_map h.keys hp hm hk))
  · exact .inr (List.mem_map_of_mem (Keyed.mem_others.mpr ⟨hp, hk⟩))

namespace Unsettled
variable {t : BatchTask α}

theorem setStage (h : e.Unsettled c) (hb : Sound e events) (ht : t ∈ e.tasks) {stage : Stage α}
    (hsame : stage.batch? = t.stage.batch?) : (e.setStage t.id stage).Unsettled c :=
  h.imp_right fun hc => hc.keep hb ht hsame

theorem endTimer (h : e.Unsettled c) (hb : Sound e events) (ht : t ∈ e.tasks)
    (hs : t.stage.isTiming = true) : (e.endTask t.id).Unsettled c := by
  refine h.imp_right ?_
  rintro ⟨u, hu, hc⟩
  refine ⟨u, Keyed.mem_others.mpr ⟨hu, fun hi => ?_⟩, hc⟩
  rw [← hb.task_eq_of_id hu ht hi, Stage.isTiming_iff, hc] at hs
  cases hs

theorem endHolder (h : e.Unsettled c) (hb : Sound e events) (hu : e.Unsettled b) :
    c = b ∨ (e.endTask b.id).Unsettled c := by
  rcases h with hc | hc
  · exact .inr (.inl hc)
  · rcases hc.endTask hb b.id with hh | hi
    · exact .inr (.inr hh)
    · exact .inl (hb.eq_of_id (hb.mem_everyBatch (.inr hc)) (hb.mem_everyBatch hu) hi)

theorem removeBatch (h : e.Unsettled c) (hb : Sound e events) {key : Key}
    (hm : (key, b) ∈ e.registry) : c = b ∨ (e.removeBatch key).Unsettled c := by
  rcases h with hc | hc
  · exact (hb.mem_batches_removeBatch hm hc).imp_right .inl
  · exact .inr (.inr hc)

end Unsettled

namespace Accounted

theorem congr (h : Accounted e events) (hcalls : ∀ s, slotAt? e'.calls s = slotAt? e.calls s)
    (hsub : ∀ c, e.Unsettled c → e'.Unsettled c) : Accounted e' (events ++ new) := by
  constructor
  case empty =>
    intro s hs
    rw [hcalls] at hs
    obtain ⟨c, hc, hsc⟩ := h.empty s hs
    exact ⟨c, hsub c hc, hsc⟩
  case filled =>
    intro s result hs
    rw [hcalls] at hs
    exact settled_mono events new (h.filled s result hs)

/-- A call is added, and its slot to the slots of a batch. -/
theorem concat (h : Accounted e events) (call : Call β) (hcalls : e'.calls = e.calls ++ [call])
    (hslot : call.slot = .empty)
    (hsub : ∀ c, e.Unsettled c → ∃ d, e'.Unsettled d ∧ c.slots ⊆ d.slots)
    (hnew : ∃ d, e'.Unsettled d ∧ e.calls.length ∈ d.slots) : Accounted e' (events ++ new) := by
  constructor
  case empty =>
    intro s hs
    rw [hcalls] at hs
    rcases slotAt?_concat hs with hs | ⟨rfl, -⟩
    · obtain ⟨c, hc, hsc⟩ := h.empty s hs
      obtain ⟨d, hd, hcd⟩ := hsub c hc
      exact ⟨d, hd, hcd hsc⟩
    · exact hnew
  case filled =>
    intro s result hs
    rw [hcalls] at hs
    rcases slotAt?_concat hs with hs | ⟨-, heq⟩
    · exact settled_mono events new (h.filled s result hs)
    · rw [hslot] at heq
      cases heq

theorem settle (h : Accounted e events) (hb : Sound e events) (hu : e.Unsettled b)
    {results : List (Ticket × Except Error β)} (hr : results.map Prod.fst = b.slots)
    (hnew : settled new = results) (hcalls : e'.calls = fillAll results e.calls)
    (hsub : ∀ c, e.Unsettled c → c = b ∨ e'.Unsettled c) : Accounted e' (events ++ new) := by
  have hmem := hb.mem_everyBatch hu
  have nd : (results.map Prod.fst).Nodup := by
    rw [hr]
    exact (List.nodup_flatMap.mp hb.slots_nodup).1 b hmem
  have hin : ∀ p ∈ results, slotAt? e'.calls p.1 = some (.filled p.2) := by
    intro p hp
    rw [hcalls]
    refine slotAt?_fillAll_of_mem nd hp (hb.slot_lt hmem ?_)
    rw [← hr]
    exact List.mem_map_of_mem hp
  have hout : ∀ s, s ∉ results.map Prod.fst → slotAt? e'.calls s = slotAt? e.calls s := by
    intro s hs
    rw [hcalls, slotAt?_fillAll_of_notMem hs]
  constructor
  case empty =>
    intro s hs
    by_cases hsr : s ∈ results.map Prod.fst
    · obtain ⟨p, hp, rfl⟩ := List.mem_map.mp hsr
      rw [hin p hp] at hs
      cases hs
    · rw [hout s hsr] at hs
      obtain ⟨c, hc, hsc⟩ := h.empty s hs
      rcases hsub c hc with rfl | hc
      · exact absurd (hr ▸ hsc) hsr
      · exact ⟨c, hc, hsc⟩
  case filled =>
    intro s result hs
    rw [settled_append, hnew]
    by_cases hsr : s ∈ results.map Prod.fst
    · obtain ⟨p, hp, rfl⟩ := List.mem_map.mp hsr
      rw [hin p hp] at hs
      cases hs
      exact List.mem_append_right _ hp
    · rw [hout s hsr] at hs
      exact List.mem_append_left _ (h.filled s result hs)

theorem release (h : Accounted e events) (hcalls : e'.calls = releaseAll b.slots e.calls)
    (hsub : ∀ c, e.Unsettled c → c = b ∨ e'.Unsettled c) : Accounted e' (events ++ new) := by
  constructor
  case empty =>
    intro s hs
    rw [hcalls] at hs
    have hsb : s ∉ b.slots := fun hm => slotAt?_releaseAll_ne_empty hm e.calls hs
    rw [slotAt?_releaseAll_of_notMem hsb] at hs
    obtain ⟨c, hc, hsc⟩ := h.empty s hs
    rcases hsub c hc with rfl | hc
    · exact absurd hsc hsb
    · exact ⟨c, hc, hsc⟩
  case filled =>
    intro s result hs
    rw [hcalls] at hs
    rcases slotAt?_of_releaseAll hs with hs | ⟨-, heq⟩
    · exact settled_mono events new (h.filled s result hs)
    · cases heq

theorem joinBatch (h : Accounted e events) {key : Key} (hm : (key, b) ∈ e.registry)
    (token : String) (request : α) (now : Instant) :
    Accounted (e.joinBatch token key request now).1
      (events ++ (e.joinBatch token key request now).2) := by
  have hin : ∀ p ∈ e.registry, (e.joinBatch token key request now).1.Unsettled
      (if p.1 = key then p.2.push request e.calls.length now else p.2) := by
    intro p hp
    refine .inl (List.mem_map.mpr ⟨_, List.mem_map_of_mem hp, ?_⟩)
    by_cases hk : p.1 = key <;> simp [hk]
  refine h.concat { token := token } rfl rfl ?_ ?_
  · rintro c (hc | hc)
    · obtain ⟨p, hp, rfl⟩ := List.mem_map.mp hc
      refine ⟨_, hin p hp, ?_⟩
      by_cases hk : p.1 = key
      · rw [if_pos hk]
        exact List.subset_append_left _ _
      · rw [if_neg hk]
        exact List.Subset.refl _
    · exact ⟨c, .inr hc, List.Subset.refl _⟩
  · refine ⟨_, hin _ hm, ?_⟩
    rw [if_pos rfl]
    exact List.mem_append_right _ List.mem_cons_self

theorem openBatch (h : Accounted e events) (token : String) (key : Key) (request : α)
    (now : Instant) :
    Accounted (e.openBatch token key request now).1
      (events ++ (e.openBatch token key request now).2) := by
  refine h.concat { token := token } rfl rfl ?_ ?_
  · rintro c (hc | ⟨t, ht, hc⟩)
    · obtain ⟨p, hp, rfl⟩ := List.mem_map.mp hc
      exact ⟨p.2, .inl (List.mem_map_of_mem (List.mem_append_left _ hp)), List.Subset.refl _⟩
    · exact ⟨c, .inr ⟨t, List.mem_append_left _ ht, hc⟩, List.Subset.refl _⟩
  · refine ⟨(Batch.empty e.nextId key now).push request e.calls.length now, .inl ?_, ?_⟩
    · exact List.mem_map.mpr ⟨_, List.mem_append_right _ List.mem_cons_self, rfl⟩
    · exact List.mem_cons_self

end Accounted

theorem asked_accounted (hask : Asked e b e' new) (hb : Sound e events) (h : Accounted e events)
    {t : BatchTask α} (ht : t ∈ e.tasks) (hq : t.stage = .queued b) :
    Accounted e' (events ++ new) := by
  have hheld := Stage.batch?_of_queued hq
  obtain ⟨-, hi⟩ := hb.holding t ht b hheld
  have hu : e.Unsettled b := .inr ⟨t, ht, hheld⟩
  cases hask with
  | abandoned =>
    rw [settleAll_eq]
    exact h.settle hb hu (map_fst_refusals b.slots) (settled_abandon hb hu) rfl
      fun c hc => hc.endHolder hb hu
  | waiting =>
    rw [hi]
    exact h.congr (fun s => rfl) fun c hc => hc.setStage hb ht hheld.symm
  | granted =>
    rw [hi]
    exact h.congr (fun s => rfl) fun c hc => hc.setStage hb ht hheld.symm

theorem step_accounted {a : Action α β} (hs : Step e a e' new) (hb : Sound e events)
    (h : Accounted e events) : Accounted e' (events ++ new) := by
  cases hs with
  | aside ha =>
    obtain ⟨hr, ht, -, -⟩ := ha.sameBooks
    refine h.congr ha.slotAt? fun c hc => ?_
    rwa [Unsettled, batches, Holds, hr, ht]
  | joined _ hp => exact h.joinBatch (mem_registry_of_pending? hp) ..
  | opened => exact h.openBatch ..
  | slept ht hst =>
    have hnone := Stage.isTiming_iff.mp (Stage.isTiming_of_armed hst)
    exact h.congr (fun s => rfl) fun c hc => hc.setStage hb ht hnone.symm
  | strayed ht hst =>
    exact h.congr (fun s => rfl) fun c hc => hc.endTimer hb ht (Stage.isTiming_of_armed hst)
  | rechecked ht hst =>
    have hnone := Stage.isTiming_iff.mp (Stage.isTiming_of_sleeping hst)
    exact h.congr (fun s => rfl) fun c hc => hc.setStage hb ht hnone.symm
  | @flushed t wakeAt shutdown now b reason ht hst _ hp =>
    obtain ⟨hm, -⟩ := pendingAs?_eq_some hp
    refine h.congr (fun s => rfl) fun c hc => ?_
    -- the batch passes from the registry to its task
    rcases hc.removeBatch hb hm with rfl | hc
    · exact .inr ⟨_, mem_setStage_self ht (.queued c), rfl⟩
    · refine hc.imp_right fun (hc : e.Holds c) => ?_
      exact hc.setStage hb ht (by simp [hst, Stage.batch?]) (.queued b)
  | resumed ht hq => exact asked_accounted (askForWorker_asked ..) hb h ht hq
  | @finished t b outcome ht hr =>
    have hheld := Stage.batch?_of_running hr
    have hu : e.Unsettled b := .inr ⟨t, ht, hheld⟩
    rw [finish_eq, settleAll_eq]
    exact h.settle hb hu (map_fst_shares outcome e.name b.slots)
      (settled_finish hb hu outcome e.name) rfl fun c hc => hc.endHolder hb hu
  | lost ht hst =>
    exact h.congr (fun s => rfl) fun c hc => hc.endTimer hb ht (by rw [hst]; rfl)
  | @orphaned t b ht hst _ hp =>
    obtain ⟨hm, -⟩ := pendingAs?_eq_some hp
    refine h.release rfl fun c hc => ?_
    exact (hc.endTimer hb ht hst).removeBatch (hb.endTask t.id) hm
  | vanished ht hst => exact h.congr (fun s => rfl) fun c hc => hc.endTimer hb ht hst
  | @dropped t b ht hq =>
    have hheld := Stage.batch?_of_queued hq
    have hi := (hb.holding t ht b hheld).2
    refine h.release rfl fun c hc => ?_
    rw [← hi]
    exact hc.endHolder hb (.inr ⟨t, ht, hheld⟩)
  | @aborted t b ht hr =>
    have hheld := Stage.batch?_of_running hr
    exact h.release rfl fun c hc => hc.endHolder hb (.inr ⟨t, ht, hheld⟩)

theorem fresh_accounted (o : Options) : Accounted (fresh o : Engine α β) [] := by
  constructor <;> simp [fresh, slotAt?]

theorem Reaches.accounted {o : Options} {actions : List (Action α β)}
    (h : Reaches o actions e events) : Accounted e events := by
  induction h with
  | built hb =>
    obtain ⟨-, rfl⟩ := build_eq_ok hb
    exact fresh_accounted o
  | step hr hs ih => exact step_accounted (step_of_step? hs) hr.sound ih

end Engine

end Coalesce
