import Coalesce.Proofs.Conservation
import Coalesce.Proofs.Slots

/-! # Every caller gets its own share

A batch that leaves the registry for a worker is executed at most once, with its requests in the
order in which they were accepted. When the execution ends, every slot gets what is due at its
position; when the batch is given up instead, every slot gets the refusal. -/
namespace Coalesce.Engine
variable {α β : Type} {e e' : Engine α β} {events new : List (Event α β)}
  {actions : List (Action α β)} {a : Action α β} {name : String} {b : Batch α}

def Concluded (actions : List (Action α β)) (events : List (Event α β)) (b : Batch α) : Prop :=
  (∃ outcome, .finish b.id outcome ∈ actions) ∨ b ∈ abandoned events

structure Fared (name : String) (e : Engine α β) (actions : List (Action α β))
    (events : List (Event α β)) : Prop where
  finished : ∀ id outcome, .finish id outcome ∈ actions → ∃ b ∈ started events, b.id = id ∧
    b.slots.zip (outcome.shares name b.slots.length) ⊆ settled events
  refused : ∀ b ∈ abandoned events, refusals b.slots ⊆ settled events
  whole : ∀ p ∈ settled events, ∃ b ∈ flushed events, p.1 ∈ b.slots ∧ Concluded actions events b
  fates : ∀ b ∈ flushed events, e.Holds b ∨ Concluded actions events b ∨ .kill b.id ∈ actions

theorem Concluded.mono (h : Concluded actions events b) (a : Action α β)
    (new : List (Event α β)) : Concluded (actions ++ [a]) (events ++ new) b := by
  rcases h with ⟨outcome, ho⟩ | ha
  · exact .inl ⟨outcome, List.mem_append_left _ ho⟩
  · refine .inr ?_
    rw [abandoned_append]
    exact List.mem_append_left _ ha

theorem Concluded.last (h : (∃ outcome, a = .finish b.id outcome) ∨ b ∈ abandoned new)
    (actions : List (Action α β)) (events : List (Event α β)) :
    Concluded (actions ++ [a]) (events ++ new) b := by
  rcases h with ⟨outcome, rfl⟩ | ha
  · exact .inl ⟨outcome, List.mem_append_right _ List.mem_cons_self⟩
  · refine .inr ?_
    rw [abandoned_append]
    exact List.mem_append_right _ ha

theorem started_mono (h : b ∈ started events) (new : List (Event α β)) :
    b ∈ started (events ++ new) := by
  rw [started_append]
  exact List.mem_append_left _ h

theorem settled_mono (events new : List (Event α β)) :
    settled events ⊆ settled (events ++ new) := by
  rw [settled_append]
  exact List.subset_append_left _ _

namespace Fared

/-- What a step has to account for: a batch whose execution ends, one that is given up, and those
that a task had or takes. -/
theorem step (h : Fared name e actions events)
    (hfinished : ∀ id outcome, a = .finish id outcome → ∃ b ∈ started events, b.id = id ∧
      b.slots.zip (outcome.shares name b.slots.length) ⊆ settled new)
    (hrefused : ∀ b ∈ abandoned new, refusals b.slots ⊆ settled new)
    (hwhole : ∀ p ∈ settled new, ∃ b ∈ flushed events, p.1 ∈ b.slots ∧
      ((∃ outcome, a = .finish b.id outcome) ∨ b ∈ abandoned new))
    (hfates : ∀ b, e.Holds b ∨ b ∈ flushed new → e'.Holds b ∨
      ((∃ outcome, a = .finish b.id outcome) ∨ b ∈ abandoned new) ∨ a = .kill b.id) :
    Fared name e' (actions ++ [a]) (events ++ new) := by
  constructor
  case finished =>
    intro id outcome hm
    rcases List.mem_append.mp hm with hm | hm
    · obtain ⟨b, hb, hi, hsub⟩ := h.finished id outcome hm
      exact ⟨b, started_mono hb new, hi, fun p hp => settled_mono events new (hsub hp)⟩
    · obtain ⟨b, hb, hi, hsub⟩ := hfinished id outcome (List.mem_singleton.mp hm).symm
      refine ⟨b, started_mono hb new, hi, fun p hp => ?_⟩
      rw [settled_append]
      exact List.mem_append_right _ (hsub hp)
  case refused =>
    rw [abandoned_append, settled_append]
    intro b hb p hp
    rcases List.mem_append.mp hb with hb | hb
    · exact List.mem_append_left _ (h.refused b hb hp)
    · exact List.mem_append_right _ (hrefused b hb hp)
  case whole =>
    rw [settled_append]
    intro p hp
    rcases List.mem_append.mp hp with hp | hp
    · obtain ⟨b, hb, hs, hc⟩ := h.whole p hp
      exact ⟨b, flushed_mono hb new, hs, hc.mono a new⟩
    · obtain ⟨b, hb, hs, hc⟩ := hwhole p hp
      exact ⟨b, flushed_mono hb new, hs, Concluded.last hc actions events⟩
  case fates =>
    have hlast : ∀ b, e.Holds b ∨ b ∈ flushed new → e'.Holds b ∨
        Concluded (actions ++ [a]) (events ++ new) b ∨ .kill b.id ∈ actions ++ [a] := by
      intro b hb
      rcases hfates b hb with hh | hc | rfl
      · exact .inl hh
      · exact .inr (.inl (Concluded.last hc actions events))
      · exact .inr (.inr (List.mem_append_right _ List.mem_cons_self))
    rw [flushed_append]
    intro b hb
    rcases List.mem_append.mp hb with hb | hb
    · rcases h.fates b hb with hh | hc | hk
      · exact hlast b (.inl hh)
      · exact .inr (.inl (hc.mono a new))
      · exact .inr (.inr (List.mem_append_left _ hk))
    · exact hlast b (.inr hb)

theorem quiet (h : Fared name e actions events) (ha : ∀ id outcome, a ≠ .finish id outcome)
    (habandoned : abandoned new = []) (hsettled : settled new = [])
    (hflushed : ∀ b ∈ flushed new, e'.Holds b)
    (hholds : ∀ b, e.Holds b → e'.Holds b ∨ a = .kill b.id) :
    Fared name e' (actions ++ [a]) (events ++ new) := by
  refine h.step ?_ ?_ ?_ ?_
  · intro id outcome heq
    exact absurd heq (ha id outcome)
  · rw [habandoned]
    intro b hb
    cases hb
  · rw [hsettled]
    intro p hp
    cases hp
  · rintro b (hb | hb)
    · rcases hholds b hb with hh | hk
      · exact .inl hh
      · exact .inr (.inr hk)
    · exact .inl (hflushed b hb)

end Fared

namespace Holds
variable {t : BatchTask α}

theorem setStage (h : e.Holds b) (hb : Sound e events) (ht : t ∈ e.tasks)
    (hne : t.stage.batch? ≠ some b) (stage : Stage α) : (e.setStage t.id stage).Holds b := by
  obtain ⟨u, hu, hub⟩ := h
  refine ⟨u, mem_setStage_of_ne hu (fun hi => hne ?_) stage, hub⟩
  rw [hb.task_eq_of_id ht hu hi.symm]
  exact hub

theorem keep (h : e.Holds b) (hb : Sound e events) (ht : t ∈ e.tasks) {stage : Stage α}
    (hsame : stage.batch? = t.stage.batch?) : (e.setStage t.id stage).Holds b := by
  by_cases hheld : t.stage.batch? = some b
  · exact ⟨_, mem_setStage_self ht stage, hsame.trans hheld⟩
  · exact h.setStage hb ht hheld stage

theorem endTask (h : e.Holds b) (hb : Sound e events) (id : Nat) :
    (e.endTask id).Holds b ∨ b.id = id := by
  obtain ⟨u, hu, hub⟩ := h
  by_cases hi : u.id = id
  · exact .inr ((hb.holding u hu b hub).2.trans hi)
  · exact .inl ⟨u, Keyed.mem_others.mpr ⟨hu, hi⟩, hub⟩

end Holds

theorem asked_fared (hask : Asked e b e' new) (hb : Sound e events)
    (h : Fared name e actions events) {t : BatchTask α} (ht : t ∈ e.tasks)
    (hq : t.stage = .queued b) :
    Fared name e' (actions ++ [.resume t.id]) (events ++ new) := by
  have hheld := Stage.batch?_of_queued hq
  obtain ⟨hflushed, hi⟩ := hb.holding t ht b hheld
  cases hask with
  | abandoned =>
    have hsettled := settled_abandon hb (.inr ⟨t, ht, hheld⟩)
    have habandoned : abandoned (.abandoned b :: settlements (refusals b.slots) e.calls) = [b] :=
      congrArg (b :: ·) (overlooks_abandoned.settlements ..)
    have hnone : flushed (.abandoned b :: settlements (refusals b.slots) e.calls) = [] :=
      overlooks_flushed.settlements ..
    rw [settleAll_eq]
    refine h.step (by simp) ?_ ?_ ?_
    · rw [habandoned, hsettled]
      intro c hc
      rw [List.mem_singleton.mp hc]
      exact List.Subset.refl _
    · rw [habandoned, hsettled]
      intro p hp
      refine ⟨b, hflushed, ?_, .inr List.mem_cons_self⟩
      have hm : p.1 ∈ (refusals b.slots : List (Ticket × Except Error β)).map Prod.fst :=
        List.mem_map_of_mem hp
      rwa [map_fst_refusals] at hm
    · rw [habandoned, hnone]
      rintro c (hc | hc)
      · rcases hc.endTask hb b.id with hh | hcb
        · exact .inl hh
        · have hsame := hb.eq_of_id (hb.mem_everyBatch (.inr hc))
            (hb.mem_everyBatch (.inr ⟨t, ht, hheld⟩)) hcb
          exact .inr (.inl (.inr (List.mem_singleton.mpr hsame)))
      · cases hc
  | waiting =>
    rw [hi]
    exact h.quiet (by simp) rfl rfl (by rintro c ⟨⟩) fun c hc => .inl (hc.keep hb ht hheld.symm)
  | granted =>
    rw [hi]
    exact h.quiet (by simp) rfl rfl (by rintro c ⟨⟩) fun c hc => .inl (hc.keep hb ht hheld.symm)

theorem finish_fared (hb : Sound e events) (htr : Traced e events)
    (h : Fared e.name e actions events) {t : BatchTask α} (ht : t ∈ e.tasks)
    (hr : t.stage = .running b) (outcome : Outcome β) :
    Fared e.name (e.finish b outcome).1 (actions ++ [.finish t.id outcome])
      (events ++ (e.finish b outcome).2) := by
  have hheld := Stage.batch?_of_running hr
  obtain ⟨hflushed, hi⟩ := hb.holding t ht b hheld
  obtain ⟨hstarted, -⟩ := htr.running t ht b hr
  have hsettled := settled_finish hb (.inr ⟨t, ht, hheld⟩) outcome e.name
  have habandoned : abandoned (outcome.notes b ++ settlements
      (b.slots.zip (outcome.shares e.name b.slots.length)) e.calls) = [] :=
    overlooks_abandoned.ending ..
  have hnone : flushed (outcome.notes b ++ settlements
      (b.slots.zip (outcome.shares e.name b.slots.length)) e.calls) = [] :=
    overlooks_flushed.ending ..
  rw [finish_eq, settleAll_eq]
  refine h.step ?_ ?_ ?_ ?_
  · intro id outcome' heq
    obtain ⟨rfl, rfl⟩ := Action.finish.inj heq
    refine ⟨b, hstarted, hi, ?_⟩
    rw [hsettled]
    exact List.Subset.refl _
  · rw [habandoned]
    intro c hc
    cases hc
  · rw [hsettled]
    intro p hp
    exact ⟨b, hflushed, (List.of_mem_zip hp).1, .inl ⟨outcome, by rw [hi]⟩⟩
  · rw [hnone]
    rintro c (hc | hc)
    · rcases hc.endTask hb b.id with hh | hcb
      · exact .inl hh
      · exact .inr (.inl (.inl ⟨outcome, by rw [hcb, hi]⟩))
    · cases hc

theorem step_fared (hs : Step e a e' new) (hb : Sound e events) (htr : Traced e events)
    (h : Fared e.name e actions events) :
    Fared e.name e' (actions ++ [a]) (events ++ new) := by
  cases hs with
  | aside ha =>
    have hnone : flushed new = [] := overlooks_flushed.aside ha
    refine h.quiet (by cases ha <;> simp) (overlooks_abandoned.aside ha) ha.settled ?_ ?_
    · rw [hnone]
      rintro c ⟨⟩
    · intro c hc
      refine .inl ?_
      rw [Holds, ha.sameBooks.tasks]
      exact hc
  | joined => exact h.quiet (by simp) rfl rfl (by rintro c ⟨⟩) fun c hc => .inl hc
  | opened =>
    refine h.quiet (by simp) rfl rfl (by rintro c ⟨⟩) ?_
    rintro c ⟨t, ht, hc⟩
    exact .inl ⟨t, List.mem_append_left _ ht, hc⟩
  | slept ht hst =>
    have hnone := Stage.isTiming_iff.mp (Stage.isTiming_of_armed hst)
    refine h.quiet (by simp) rfl rfl (by rintro c ⟨⟩) fun c hc => .inl ?_
    exact hc.keep hb ht hnone.symm
  | @strayed t ht hst hp =>
    obtain ⟨b, hfound⟩ := hb.timer_finds ht (Stage.isTiming_of_armed hst)
    rw [hp] at hfound
    cases hfound
  | rechecked ht hst =>
    have hnone := Stage.isTiming_iff.mp (Stage.isTiming_of_sleeping hst)
    refine h.quiet (by simp) rfl rfl (by rintro c ⟨⟩) fun c hc => .inl ?_
    exact hc.keep hb ht hnone.symm
  | @flushed t wakeAt shutdown now b reason ht hst _ hp =>
    refine h.quiet (by simp) rfl rfl ?_ fun c hc => .inl ?_
    · intro c hc
      rw [List.mem_singleton.mp hc]
      exact ⟨_, mem_setStage_self ht (.queued b), rfl⟩
    · exact hc.setStage hb ht (by simp [hst, Stage.batch?]) (.queued b)
  | resumed ht hq => exact asked_fared (askForWorker_asked ..) hb h ht hq
  | finished ht hr => exact finish_fared hb htr h ht hr _
  | @lost t ht =>
    refine h.quiet (by simp) rfl rfl (by rintro c ⟨⟩) fun c hc => ?_
    exact (hc.endTask hb t.id).imp_right fun hi => by rw [hi]
  | @orphaned t b ht =>
    refine h.quiet (by simp) rfl rfl (by rintro c ⟨⟩) fun c hc => ?_
    exact (hc.endTask hb t.id).imp_right fun hi => by rw [hi]
  | @vanished t ht =>
    refine h.quiet (by simp) rfl rfl (by rintro c ⟨⟩) fun c hc => ?_
    exact (hc.endTask hb t.id).imp_right fun hi => by rw [hi]
  | @dropped t b ht =>
    refine h.quiet (by simp) rfl rfl (by rintro c ⟨⟩) fun c hc => ?_
    exact (hc.endTask hb t.id).imp_right fun hi => by rw [hi]
  | @aborted t b ht hr =>
    obtain ⟨-, hid⟩ := hb.holding t ht b (Stage.batch?_of_running hr)
    refine h.quiet (by simp) rfl rfl (by rintro c ⟨⟩) fun c hc => ?_
    exact (hc.endTask hb b.id).imp_right fun hi => by rw [hi, hid]

theorem fresh_fared (o : Options) :
    Fared name (fresh o : Engine α β) ([] : List (Action α β)) [] := by
  constructor <;> simp [abandoned, settled, flushed]

namespace Reaches
variable {o : Options}

theorem fared (h : Reaches o actions e events) : Fared o.name e actions events := by
  induction h with
  | built hb =>
    obtain ⟨-, rfl⟩ := build_eq_ok hb
    exact fresh_fared o
  | @step actions e events action e' new hr hs ih =>
    have hname : e.name = o.name := hr.settings.name
    rw [← hname] at ih ⊢
    exact step_fared (step_of_step? hs) hr.sound hr.traced ih

theorem slotAt?_of_settled (h : Reaches o actions e events) {s : Ticket}
    {result : Except Error β} (hs : (s, result) ∈ settled events) :
    slotAt? e.calls s = some (.filled result) :=
  h.delivered.filled (s, result) hs

theorem slots_of_finish (h : Reaches o actions e events) (hb : b ∈ flushed events)
    {outcome : Outcome β} (hf : .finish b.id outcome ∈ actions) :
    b ∈ started events ∧ ∀ p ∈ b.slots.zip (outcome.shares o.name b.slots.length),
      slotAt? e.calls p.1 = some (.filled p.2) := by
  obtain ⟨c, hc, hi, hsub⟩ := h.fared.finished b.id outcome hf
  have hcb : c = b := h.sound.eq_of_flushed (h.traced.startedFlushed c hc) hb hi
  subst hcb
  exact ⟨hc, fun p hp => h.slotAt?_of_settled (hsub hp)⟩

theorem slots_of_replicate (h : Reaches o actions e events) (hb : b ∈ flushed events)
    {outcome : Outcome β} (hf : .finish b.id outcome ∈ actions) {result : Except Error β}
    (hshares : outcome.shares o.name b.slots.length = List.replicate b.slots.length result) :
    ∀ s ∈ b.slots, slotAt? e.calls s = some (.filled result) := by
  intro s hs
  refine (h.slots_of_finish hb hf).2 (s, result) ?_
  rw [hshares, zip_replicate]
  exact List.mem_map_of_mem hs

theorem slots_settled (h : Reaches o actions e events) (hb : b ∈ flushed events)
    (hc : Concluded actions events b) : b.slots ⊆ (settled events).map Prod.fst := by
  rcases hc with ⟨outcome, hf⟩ | ha
  · obtain ⟨c, hc, hi, hsub⟩ := h.fared.finished b.id outcome hf
    have hcb : c = b := h.sound.eq_of_flushed (h.traced.startedFlushed c hc) hb hi
    subst hcb
    rw [← map_fst_shares outcome o.name c.slots]
    exact List.map_subset Prod.fst hsub
  · rw [← map_fst_refusals b.slots]
    exact List.map_subset Prod.fst (h.fared.refused b ha)

theorem slots_settled_of_mem (h : Reaches o actions e events) (hb : b ∈ flushed events)
    {s : Ticket} (hs : s ∈ b.slots) (hm : s ∈ (settled events).map Prod.fst) :
    b.slots ⊆ (settled events).map Prod.fst := by
  obtain ⟨p, hp, rfl⟩ := List.mem_map.mp hm
  obtain ⟨c, hc, hsc, hconcluded⟩ := h.fared.whole p hp
  have hcb : c = b := h.sound.batch_of_slot (List.mem_append_left _ (taken_of_flushed hc))
    (List.mem_append_left _ (taken_of_flushed hb)) hsc hs
  exact h.slots_settled hb (hcb ▸ hconcluded)

/-- A batch that asks for a worker after the engine has been cancelled is given up. -/
theorem abandoned_of_cancelled (h : Reaches o actions e events) {t : BatchTask α}
    (ht : t ∈ e.tasks) (hq : t.stage = .queued b) (hc : e.cancelled = true) {id : Nat}
    (hi : t.id = id) (hs : e.step? (.resume id) = some (e', new)) : b ∈ abandoned new := by
  cases step_of_step? hs with
  | aside ha => cases ha
  | @resumed u c hu hcq =>
    have hsame : u = t := h.sound.task_eq_of_id hu ht hi.symm
    subst hsame
    have hcb : c = b := Stage.queued.inj (hcq.symm.trans hq)
    subst hcb
    unfold askForWorker
    rw [hc]
    exact List.mem_cons_self

theorem countP_started (h : Reaches o actions e events) (b : Batch α) :
    (started events).countP (fun c => c.id = b.id) ≤ 1 := by
  have hcount := List.nodup_iff_count_le_one.mp h.traced.startedOnce b.id
  rw [List.count, List.countP_map] at hcount
  exact hcount

theorem entries_infix (h : Reaches o actions e events) (hb : b ∈ flushed events) :
    b.entries <:+: acceptedUnder events b.key := by
  have hm : b ∈ e.batchesUnder events b.key := List.mem_append_left _
    (List.mem_filter.mpr ⟨taken_of_flushed hb, by simp⟩)
  obtain ⟨before, after, heq⟩ := List.append_of_mem hm
  rw [← h.conserved.entries b.key, heq]
  refine ⟨before.flatMap Batch.entries, after.flatMap Batch.entries, ?_⟩
  simp

end Reaches

/-- What becomes of a batch that has left the registry for a worker. -/
structure Served (o : Options) (e : Engine α β) (actions : List (Action α β))
    (events : List (Event α β)) (b : Batch α) : Prop where
  startedOnce : (started events).countP (fun c => c.id = b.id) ≤ 1
  startedAsTaken : ∀ c ∈ started events, c.id = b.id → c = b
  inOrder : b.slots.length = b.requests.length ∧ b.entries <:+: acceptedUnder events b.key
  returned : ∀ outcome, .finish b.id outcome ∈ actions → b ∈ started events
  positional : ∀ items, .finish b.id (.results items) ∈ actions → items.length = b.size →
    ∀ (i : Nat) s item, b.slots[i]? = some s → items[i]? = some item →
      slotAt? e.calls s = some (.filled item)
  mismatched : ∀ items, .finish b.id (.results items) ∈ actions → items.length ≠ b.size →
    ∀ s ∈ b.slots, slotAt? e.calls s =
      some (.filled (.error (.resultCountMismatch o.name b.size items.length)))
  panickedText : ∀ message, .finish b.id (.panic (.text message)) ∈ actions → ∀ s ∈ b.slots,
    slotAt? e.calls s = some (.filled (.error (.executorPanicked o.name message)))
  panickedOther : .finish b.id (.panic .other) ∈ actions → ∀ s ∈ b.slots, slotAt? e.calls s =
    some (.filled (.error (.executorPanicked o.name "non-string panic payload")))
  refused : ∀ t ∈ e.tasks, t.stage = .queued b → e.cancelled = true → ∀ e' new,
    e.step? (.resume t.id) = some (e', new) → b ∈ abandoned new
  abandoned : b ∈ abandoned events → b ∉ started events ∧ ∀ s ∈ b.slots,
    slotAt? e.calls s = some (.filled (.error (.cancelled .engine)))
  settledOnce : ((settled events).map Prod.fst).Nodup
  settledWhole : ∀ s ∈ b.slots, s ∈ (settled events).map Prod.fst →
    b.slots ⊆ (settled events).map Prod.fst
  filled : Concluded actions events b → ∀ s ∈ b.slots, ∃ result,
    slotAt? e.calls s = some (.filled result)
  accounted : e.Holds b ∨ Concluded actions events b ∨ .kill b.id ∈ actions

/-- Every batch that leaves the registry for a worker is executed at most once, and every slot of it
gets what is due at its position. -/
theorem batch_served {o : Options} (h : Reaches o actions e events) (hb : b ∈ flushed events) :
    Served o e actions events b := by
  have hmem : b ∈ e.everyBatch events := List.mem_append_left _ (taken_of_flushed hb)
  obtain ⟨-, hlen⟩ := h.sound.shape b hmem
  constructor
  case startedOnce => exact h.countP_started b
  case startedAsTaken =>
    intro c hc hi
    exact h.sound.eq_of_flushed (h.traced.startedFlushed c hc) hb hi
  case inOrder => exact ⟨hlen, h.entries_infix hb⟩
  case returned => exact fun outcome hf => (h.slots_of_finish hb hf).1
  case positional =>
    intro items hf hsize i s item hs hitem
    have hshares : (Outcome.results items).shares o.name b.slots.length = items :=
      if_pos (hsize.trans hlen.symm)
    refine (h.slots_of_finish hb hf).2 (s, item) ?_
    rw [hshares]
    exact List.mem_of_getElem? (List.getElem?_zip_eq_some.mpr ⟨hs, hitem⟩)
  case mismatched =>
    intro items hf hsize
    refine h.slots_of_replicate hb hf ?_
    rw [Batch.size, ← hlen] at hsize ⊢
    exact if_neg hsize
  case panickedText => exact fun message hf => h.slots_of_replicate hb hf rfl
  case panickedOther => exact fun hf => h.slots_of_replicate hb hf rfl
  case refused => exact fun t ht hq hc e' new hs => h.abandoned_of_cancelled ht hq hc rfl hs
  case abandoned =>
    intro ha
    refine ⟨h.traced.abandonedUnstarted b ha, fun s hs => ?_⟩
    exact h.slotAt?_of_settled (h.fared.refused b ha (List.mem_map_of_mem hs))
  case settledOnce => exact h.delivered.once
  case settledWhole => exact fun s hs hm => h.slots_settled_of_mem hb hs hm
  case filled =>
    intro hc s hs
    obtain ⟨p, hp, rfl⟩ := List.mem_map.mp (h.slots_settled hb hc hs)
    exact ⟨p.2, h.delivered.filled p hp⟩
  case accounted => exact h.fared.fates b hb

/-- Of two requests under one key, the second gets the second entry, an error. -/
theorem batch_served_by_position : ∃ (e : Engine String String) (events : _) (b : Batch String),
    Reaches {} [.submit "t" ⟨"k"⟩ "a" ⟨0⟩, .arm 0, .submit "u" ⟨"k"⟩ "b" ⟨5⟩,
      .wake 0 false ⟨1000000000⟩, .resume 0,
      .finish 0 (.results [.ok "A", .error (.execution "no b")])] e events ∧
    b ∈ flushed events ∧ b.requests = ["a", "b"] ∧
    slotAt? e.calls 1 = some (.filled (.error (.execution "no b"))) := by
  have h : @Reaches String String {} [.submit "t" ⟨"k"⟩ "a" ⟨0⟩, .arm 0,
      .submit "u" ⟨"k"⟩ "b" ⟨5⟩, .wake 0 false ⟨1000000000⟩, .resume 0,
      .finish 0 (.results [.ok "A", .error (.execution "no b")])] _ _ :=
    reaches_iff_run?.mpr ⟨_, _, rfl, rfl⟩
  refine ⟨_, _, ⟨0, ⟨"k"⟩, ["a", "b"], [0, 1], ⟨0⟩, ⟨5⟩⟩, h, List.mem_cons_self, rfl, ?_⟩
  exact (batch_served h List.mem_cons_self).positional [.ok "A", .error (.execution "no b")]
    (List.mem_of_getLast? rfl) rfl 1 1 _ rfl rfl

end Coalesce.Engine
