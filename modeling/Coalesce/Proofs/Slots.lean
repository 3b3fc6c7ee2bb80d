import Coalesce.Proofs.Executions

/-! # Slots are settled once

The slots of a batch stay empty for as long as the batch is pending or a task holds it. What is put
into a slot then stays. -/
namespace Coalesce.Engine
variable {α β : Type} {e e' : Engine α β} {events new : List (Event α β)} {b : Batch α}

/-- A task has taken the batch and neither executed it nor given it up. -/
def Holds (e : Engine α β) (b : Batch α) : Prop := ∃ t ∈ e.tasks, t.stage.batch? = some b

/-- The callers of the batch are still to get their results. -/
def Unsettled (e : Engine α β) (b : Batch α) : Prop := b ∈ e.batches ∨ e.Holds b

structure Delivered (e : Engine α β) (events : List (Event α β)) : Prop where
  empty : ∀ b, e.Unsettled b → ∀ s ∈ b.slots, slotAt? e.calls s = some .empty
  once : ((settled events).map Prod.fst).Nodup
  filled : ∀ p ∈ settled events, slotAt? e.calls p.1 = some (.filled p.2)

theorem Sound.mem_everyBatch (h : Sound e events) (hu : e.Unsettled b) :
    b ∈ e.everyBatch events := by
  rcases hu with hb | ⟨t, ht, hb⟩
  · exact List.mem_append_right _ hb
  · exact List.mem_append_left _ (taken_of_flushed (h.holding t ht b hb).1)

theorem settled_settlements {results : List (Ticket × Except Error β)} {calls : List (Call β)}
    (h : ∀ p ∈ results, p.1 < calls.length) :
    settled (settlements results calls : List (Event α β)) = results := by
  induction results with
  | nil => rfl
  | cons p results ih =>
    obtain ⟨hp, hr⟩ := List.forall_mem_cons.mp h
    have hw : waitAt? calls p.1 = some calls[p.1].wait := by
      rw [waitAt?, List.getElem?_eq_getElem hp]
      rfl
    have hcons : (settlements (p :: results) calls : List (Event α β)) =
        .settled p.1 p.2 calls[p.1].wait.isWaiting :: settlements results calls := by
      rw [settlements, List.filterMap_cons_some (by rw [hw]; rfl), settlements]
    rw [hcons]
    exact congrArg (p :: ·) (ih hr)

theorem lt_of_slotAt? {calls : List (Call β)} {s : Ticket} {slot : Slot β}
    (h : slotAt? calls s = some slot) : s < calls.length := by
  obtain ⟨call, hc, -⟩ := Option.map_eq_some_iff.mp h
  exact (List.getElem?_eq_some_iff.mp hc).1

theorem slotAt?_append {calls : List (Call β)} {s : Ticket} {slot : Slot β}
    (h : slotAt? calls s = some slot) (more : List (Call β)) :
    slotAt? (calls ++ more) s = some slot := by
  rw [slotAt?, List.getElem?_append_left (lt_of_slotAt? h)]
  exact h

theorem slotAt?_setWait (e : Engine α β) (ticket : Ticket) (wait : Wait β) (s : Ticket) :
    slotAt? (e.setWait ticket wait).calls s = slotAt? e.calls s := by
  rw [setWait, slotAt?, List.getElem?_modify, slotAt?]
  cases e.calls[s]? with
  | none => rfl
  | some call => by_cases h : ticket = s <;> simp [h]

theorem Aside.slotAt? {a : Action α β} (h : Aside e a e' new) (s : Ticket) :
    slotAt? e'.calls s = slotAt? e.calls s := by
  cases h with
  | answered => exact slotAt?_setWait ..
  | left => exact slotAt?_setWait ..
  | _ => rfl

theorem Aside.settled {a : Action α β} (h : Aside e a e' new) : settled new = [] := by
  cases h <;> rfl

namespace Delivered

/-- Nothing is settled; what is filled stays so, and what has to be empty is. -/
theorem quiet (h : Delivered e events) (hnew : settled new = [])
    (hempty : ∀ c, e'.Unsettled c → ∀ s ∈ c.slots, slotAt? e'.calls s = some .empty)
    (hfilled : ∀ s result, slotAt? e.calls s = some (.filled result) →
      slotAt? e'.calls s = some (.filled result)) : Delivered e' (events ++ new) := by
  have hsettled : settled (events ++ new) = settled events := by simp [hnew]
  constructor
  case empty => exact hempty
  case once =>
    rw [hsettled]
    exact h.once
  case filled =>
    rw [hsettled]
    exact fun p hp => hfilled p.1 p.2 (h.filled p hp)

theorem congr (h : Delivered e events) (hnew : settled new = [])
    (hcalls : ∀ s, slotAt? e'.calls s = slotAt? e.calls s)
    (hsub : ∀ c, e'.Unsettled c → e.Unsettled c) : Delivered e' (events ++ new) := by
  refine h.quiet hnew (fun c hc s hs => ?_) (fun s result hs => ?_)
  · rw [hcalls]
    exact h.empty c (hsub c hc) s hs
  · rw [hcalls]
    exact hs

theorem settle (h : Delivered e events) (hb : Sound e events) (hu : e.Unsettled b)
    {results : List (Ticket × Except Error β)} (hr : results.map Prod.fst = b.slots)
    (hnew : settled new = results) (hcalls : e'.calls = fillAll results e.calls)
    (hsub : ∀ c, e'.Unsettled c → e.Unsettled c ∧ c ≠ b) : Delivered e' (events ++ new) := by
  have hmem := hb.mem_everyBatch hu
  have nd : (results.map Prod.fst).Nodup := by
    rw [hr]
    exact (List.nodup_flatMap.mp hb.slots_nodup).1 b hmem
  have hunfilled : ∀ p ∈ settled events, p.1 ∉ results.map Prod.fst := by
    intro p hp hs
    rw [hr] at hs
    have hboth := (h.empty b hu p.1 hs).symm.trans (h.filled p hp)
    cases hboth
  constructor
  case empty =>
    intro c hc s hs
    obtain ⟨hc, hne⟩ := hsub c hc
    have hother : s ∉ results.map Prod.fst := by
      rw [hr]
      exact fun hsb => hne (hb.batch_of_slot (hb.mem_everyBatch hc) hmem hs hsb)
    rw [hcalls, slotAt?_fillAll_of_notMem hother]
    exact h.empty c hc s hs
  case once =>
    rw [settled_append, hnew, List.map_append]
    refine List.nodup_append.mpr ⟨h.once, nd, ?_⟩
    rintro s hs s' hs' rfl
    obtain ⟨p, hp, rfl⟩ := List.mem_map.mp hs
    exact hunfilled p hp hs'
  case filled =>
    rw [settled_append, hnew, hcalls]
    intro p hp
    rcases List.mem_append.mp hp with hp | hp
    · rw [slotAt?_fillAll_of_notMem (hunfilled p hp)]
      exact h.filled p hp
    · refine slotAt?_fillAll_of_mem nd hp (hb.slot_lt hmem ?_)
      rw [← hr]
      exact List.mem_map_of_mem hp

theorem release (h : Delivered e events) (hb : Sound e events) (hu : e.Unsettled b)
    (hnew : settled new = []) (hcalls : e'.calls = releaseAll b.slots e.calls)
    (hsub : ∀ c, e'.Unsettled c → e.Unsettled c ∧ c ≠ b) : Delivered e' (events ++ new) := by
  refine h.quiet hnew (fun c hc s hs => ?_) (fun s result hs => ?_)
  · obtain ⟨hc, hne⟩ := hsub c hc
    have hother : s ∉ b.slots := fun hsb =>
      hne (hb.batch_of_slot (hb.mem_everyBatch hc) (hb.mem_everyBatch hu) hs hsb)
    rw [hcalls, slotAt?_releaseAll_of_notMem hother]
    exact h.empty c hc s hs
  · rw [hcalls]
    exact slotAt?_releaseAll_filled hs _

end Delivered

theorem unsettled_endTask {id : Nat} {c : Batch α} (hc : (e.endTask id).Unsettled c) :
    e.Unsettled c := by
  rcases hc with hc | ⟨u, hu, hc⟩
  · exact .inl hc
  · exact .inr ⟨u, List.mem_of_mem_filter hu, hc⟩

theorem Sound.unsettled_of_holder (h : Sound e events) {t : BatchTask α} (ht : t ∈ e.tasks)
    (hb : t.stage.batch? = some b) {c : Batch α} (hc : (e.endTask b.id).Unsettled c) :
    e.Unsettled c ∧ c ≠ b := by
  refine ⟨unsettled_endTask hc, ?_⟩
  rintro rfl
  rcases hc with hc | ⟨u, hu, hc⟩
  · obtain ⟨p, hp, rfl⟩ := List.mem_map.mp hc
    exact h.notMem_flushed hp (h.holding t ht p.2 hb).1
  · obtain ⟨hu, hne⟩ := Keyed.mem_others.mp hu
    exact h.ne_of_batch? hu hne hc rfl

theorem Sound.unsettled_of_timer (h : Sound e events) {key : Key} (hm : (key, b) ∈ e.registry)
    {id : Nat} {c : Batch α} (hc : ((e.endTask id).removeBatch key).Unsettled c) :
    e.Unsettled c ∧ c ≠ b := by
  rcases hc with hc | ⟨u, hu, hc⟩
  · obtain ⟨p, hp, rfl⟩ := List.mem_map.mp hc
    obtain ⟨hp, hne⟩ := Keyed.mem_others.mp hp
    refine ⟨.inl (List.mem_map_of_mem hp), ?_⟩
    rintro rfl
    exact hne ((h.own p hp).symm.trans (h.own _ hm))
  · have hu' := List.mem_of_mem_filter hu
    refine ⟨.inr ⟨u, hu', hc⟩, ?_⟩
    rintro rfl
    exact h.notMem_flushed hm (h.holding u hu' c hc).1

theorem unsettled_setStage {t : BatchTask α} {stage : Stage α} {c : Batch α}
    (hs : ∀ b, stage.batch? = some b → e.Unsettled b)
    (hc : (e.setStage t.id stage).Unsettled c) : e.Unsettled c := by
  rcases hc with hc | ⟨u, hu, hc⟩
  · exact .inl hc
  · obtain ⟨v, hv, rfl⟩ := List.mem_map.mp hu
    by_cases hi : v.id = t.id
    · rw [if_pos hi] at hc
      exact hs c hc
    · rw [if_neg hi] at hc
      exact .inr ⟨v, hv, hc⟩

namespace Delivered

theorem joinBatch (h : Delivered e events) (token : String) (key : Key) (request : α)
    (now : Instant) :
    Delivered (e.joinBatch token key request now).1
      (events ++ (e.joinBatch token key request now).2) := by
  refine h.quiet rfl (fun c hc s hs => ?_) (fun s result hs => slotAt?_append hs _)
  rcases hc with hc | hc
  · obtain ⟨p, hp', rfl⟩ := List.mem_map.mp hc
    obtain ⟨q, hq, rfl⟩ := List.mem_map.mp hp'
    have hold : ∀ s ∈ q.2.slots, slotAt? e.calls s = some .empty :=
      h.empty q.2 (.inl (List.mem_map_of_mem hq))
    by_cases hk : q.1 = key
    · rw [if_pos hk] at hs
      rcases List.mem_append.mp hs with hs | hs
      · exact slotAt?_append (hold s hs) _
      · rw [List.mem_singleton.mp hs]
        simp [Engine.joinBatch, slotAt?]
    · rw [if_neg hk] at hs
      exact slotAt?_append (hold s hs) _
  · exact slotAt?_append (h.empty c (.inr hc) s hs) _

theorem openBatch (h : Delivered e events) (token : String) (key : Key) (request : α)
    (now : Instant) :
    Delivered (e.openBatch token key request now).1
      (events ++ (e.openBatch token key request now).2) := by
  refine h.quiet rfl (fun c hc s hs => ?_) (fun s result hs => slotAt?_append hs _)
  rcases hc with hc | ⟨t, ht, hc⟩
  · obtain ⟨p, hp, rfl⟩ := List.mem_map.mp hc
    rcases List.mem_append.mp hp with hp | hp
    · exact slotAt?_append (h.empty p.2 (.inl (List.mem_map_of_mem hp)) s hs) _
    · rw [List.mem_singleton.mp hp] at hs
      rw [List.mem_singleton.mp hs]
      simp [Engine.openBatch, slotAt?]
  · rcases List.mem_append.mp ht with ht | ht
    · exact slotAt?_append (h.empty c (.inr ⟨t, ht, hc⟩) s hs) _
    · rw [List.mem_singleton.mp ht] at hc
      cases hc

end Delivered

theorem map_fst_shares (outcome : Outcome β) (name : String) (slots : List Ticket) :
    (slots.zip (outcome.shares name slots.length)).map Prod.fst = slots :=
  List.map_fst_zip (Nat.le_of_eq (outcome.length_shares name slots.length).symm)

theorem map_fst_refusals (slots : List Ticket) :
    (refusals slots : List (Ticket × Except Error β)).map Prod.fst = slots := by
  rw [refusals, List.map_map]
  exact List.map_id slots

theorem settled_notes (outcome : Outcome β) (b : Batch α) :
    settled (outcome.notes b : List (Event α β)) = [] := by
  cases outcome with
  | results items =>
    by_cases h : items.length = b.slots.length <;> simp [Outcome.notes, h, settled, Event.settled?]
  | panic payload => rfl

theorem settled_abandon (h : Sound e events) (hu : e.Unsettled b) :
    settled (.abandoned b :: settlements (refusals b.slots) e.calls : List (Event α β)) =
      refusals b.slots := by
  refine settled_settlements fun p hp => h.slot_lt (h.mem_everyBatch hu) ?_
  have hm : p.1 ∈ (refusals b.slots : List (Ticket × Except Error β)).map Prod.fst :=
    List.mem_map_of_mem hp
  rwa [map_fst_refusals] at hm

theorem settled_finish (h : Sound e events) (hu : e.Unsettled b) (outcome : Outcome β)
    (name : String) :
    settled (outcome.notes b ++
      settlements (b.slots.zip (outcome.shares name b.slots.length)) e.calls : List (Event α β)) =
      b.slots.zip (outcome.shares name b.slots.length) := by
  rw [settled_append, settled_notes, List.nil_append]
  refine settled_settlements fun p hp => h.slot_lt (h.mem_everyBatch hu) ?_
  exact (List.of_mem_zip hp).1

theorem asked_delivered (hask : Asked e b e' new) (hb : Sound e events) (h : Delivered e events)
    {t : BatchTask α} (ht : t ∈ e.tasks) (hq : t.stage = .queued b) :
    Delivered e' (events ++ new) := by
  have hheld := Stage.batch?_of_queued hq
  obtain ⟨-, hi⟩ := hb.holding t ht b hheld
  have hu : e.Unsettled b := .inr ⟨t, ht, hheld⟩
  cases hask with
  | abandoned =>
    rw [settleAll_eq]
    exact h.settle hb hu (map_fst_refusals b.slots) (settled_abandon hb hu) rfl
      fun c hc => hb.unsettled_of_holder ht hheld hc
  | waiting =>
    rw [hi]
    refine h.congr rfl (fun s => rfl) fun c hc => unsettled_setStage ?_ hc
    intro c hc
    cases hc
    exact hu
  | granted =>
    rw [hi]
    refine h.congr rfl (fun s => rfl) fun c hc => unsettled_setStage ?_ hc
    intro c hc
    cases hc
    exact hu

theorem step_delivered {a : Action α β} (hs : Step e a e' new) (hb : Sound e events)
    (h : Delivered e events) : Delivered e' (events ++ new) := by
  cases hs with
  | aside ha =>
    obtain ⟨hr, ht, -, -⟩ := ha.sameBooks
    refine h.congr ha.settled ha.slotAt? fun c hc => ?_
    rwa [Unsettled, batches, Holds, hr, ht] at hc
  | joined => exact h.joinBatch ..
  | opened => exact h.openBatch ..
  | slept =>
    exact h.congr rfl (fun s => rfl) fun c hc => unsettled_setStage (by simp [Stage.batch?]) hc
  | strayed => exact h.congr rfl (fun s => rfl) fun c hc => unsettled_endTask hc
  | rechecked =>
    exact h.congr rfl (fun s => rfl) fun c hc => unsettled_setStage (by simp [Stage.batch?]) hc
  | @flushed t wakeAt shutdown now b reason ht _ _ hp =>
    obtain ⟨hm, -⟩ := pendingAs?_eq_some hp
    refine h.congr rfl (fun s => rfl) fun c hc => ?_
    have hset : (e.setStage t.id (.queued b)).Unsettled c := by
      rcases hc with hc | hc
      · obtain ⟨p, hp, rfl⟩ := List.mem_map.mp hc
        exact .inl (List.mem_map_of_mem (List.mem_of_mem_filter hp))
      · exact .inr hc
    refine unsettled_setStage (fun d hd => ?_) hset
    cases hd
    exact .inl (List.mem_map_of_mem hm)
  | resumed ht hq => exact asked_delivered (askForWorker_asked ..) hb h ht hq
  | @finished t b outcome ht hr =>
    have hheld := Stage.batch?_of_running hr
    have hu : e.Unsettled b := .inr ⟨t, ht, hheld⟩
    rw [finish_eq, settleAll_eq]
    exact h.settle hb hu (map_fst_shares outcome e.name b.slots)
      (settled_finish hb hu outcome e.name) rfl fun c hc => hb.unsettled_of_holder ht hheld hc
  | lost => exact h.congr rfl (fun s => rfl) fun c hc => unsettled_endTask hc
  | orphaned ht _ _ hp =>
    obtain ⟨hm, -⟩ := pendingAs?_eq_some hp
    exact h.release hb (.inl (List.mem_map_of_mem hm)) rfl rfl
      fun c hc => hb.unsettled_of_timer hm hc
  | vanished => exact h.congr rfl (fun s => rfl) fun c hc => unsettled_endTask hc
  | @dropped t b ht hq =>
    have hheld := Stage.batch?_of_queued hq
    have hi := (hb.holding t ht b hheld).2
    exact h.release hb (.inr ⟨t, ht, hheld⟩) rfl rfl
      fun c hc => hb.unsettled_of_holder ht hheld (by rw [hi]; exact hc)
  | @aborted t b ht hr =>
    have hheld := Stage.batch?_of_running hr
    exact h.release hb (.inr ⟨t, ht, hheld⟩) rfl rfl
      fun c hc => hb.unsettled_of_holder ht hheld hc

theorem fresh_delivered (o : Options) : Delivered (fresh o : Engine α β) [] := by
  constructor <;> simp [fresh, Unsettled, batches, Holds, settled]

theorem Reaches.delivered {o : Options} {actions : List (Action α β)}
    (h : Reaches o actions e events) : Delivered e events := by
  induction h with
  | built hb =>
    obtain ⟨-, rfl⟩ := build_eq_ok hb
    exact fresh_delivered o
  | step hr hs ih => exact step_delivered (step_of_step? hs) hr.sound ih

end Coalesce.Engine
