import Coalesce.Proofs.Observing
import Coalesce.Proofs.Reasons
import Coalesce.Proofs.Statistics

/-! # Calm histories

Where nothing is cancelled, no caller leaves and no task is dropped, a caller comes back only with
the result in its slot. So an engine all of whose callers have come back is at rest: it has nothing
pending and nothing under way, every batch has been executed, and the counters are those of the
executions and the joins. -/
namespace Coalesce.Engine
variable {α β : Type} {e e' : Engine α β} {events new : List (Event α β)}
  {actions more : List (Action α β)} {a : Action α β} {b : Batch α} {o : Options} {s : Ticket}
  {result : Except Error β}

structure Calm (actions : List (Action α β)) : Prop where
  cancel : .cancel ∉ actions
  token : ∀ token, .cancelToken token ∉ actions
  leave : ∀ s, .leave s ∉ actions
  kill : ∀ id, .kill id ∉ actions

theorem calm_nil : Calm ([] : List (Action α β)) := by
  constructor <;> simp

theorem calm_append :
    Calm (actions ++ more) ↔ Calm actions ∧ Calm more := by
  constructor
  · rintro ⟨hcancel, htoken, hleave, hkill⟩
    simp only [List.mem_append, not_or, forall_and] at hcancel htoken hleave hkill
    exact ⟨⟨hcancel.1, htoken.1, hleave.1, hkill.1⟩, ⟨hcancel.2, htoken.2, hleave.2, hkill.2⟩⟩
  · rintro ⟨h, h'⟩
    constructor
    · simp [h.cancel, h'.cancel]
    · simp [h.token, h'.token]
    · simp [h.leave, h'.leave]
    · simp [h.kill, h'.kill]

theorem Asked.cancelledTokens (h : Asked e b e' new) : e'.cancelledTokens = e.cancelledTokens := by
  cases h with
  | abandoned =>
    rw [settleAll_eq]
    rfl
  | waiting => rfl
  | granted => rfl

theorem step_cancelledTokens (hs : Step e a e' new) (ha : ∀ token, a ≠ .cancelToken token) :
    e'.cancelledTokens = e.cancelledTokens := by
  cases hs with
  | aside haside =>
    cases haside with
    | tokenCancelled => exact absurd rfl (ha _)
    | _ => rfl
  | resumed => exact (askForWorker_asked ..).cancelledTokens
  | finished =>
    rw [finish_eq, settleAll_eq]
    rfl
  | _ => rfl

namespace Reaches

theorem cancelledTokens_eq_nil (h : Reaches o actions e events) (hu : Calm actions) :
    e.cancelledTokens = [] := by
  induction h with
  | built hb =>
    obtain ⟨-, rfl⟩ := build_eq_ok hb
    rfl
  | step hr hs ih =>
    obtain ⟨hbefore, hlast⟩ := calm_append.mp hu
    rw [step_cancelledTokens (step_of_step? hs), ih hbefore]
    rintro token rfl
    exact hlast.token token List.mem_cons_self

theorem cancelled_eq_false (h : Reaches o actions e events) (hu : Calm actions) :
    e.cancelled = false := by
  rw [Bool.eq_false_iff, ne_eq, h.cancelled_iff]
  exact hu.cancel

theorem abandoned_eq_nil (h : Reaches o actions e events) (hu : Calm actions) :
    abandoned events = [] := by
  refine List.eq_nil_iff_forall_not_mem.mpr fun b hb => ?_
  have hcancelled := h.cancelled_of_abandoned hb
  rw [h.cancelled_eq_false hu] at hcancelled
  cases hcancelled

/-- A flush for a shutdown comes after the engine was cancelled. -/
theorem cancelled_of_shutdown (h : Reaches o actions e events) {now : Instant}
    (hf : (b, .shutdown, now) ∈ flushes events) : e.cancelled = true := by
  induction h with
  | built => cases hf
  | step hr hs ih =>
    have hstep := step_of_step? hs
    refine (step_cancelled hstep).mpr (.inl ?_)
    rw [flushes_append] at hf
    rcases List.mem_append.mp hf with hf | hf
    · exact ih hf
    · obtain ⟨t, -, wakeAt, shutdown, -, -, hmay, -, hreason⟩ := step_flushes hstep hf
      cases due_of_dueReason? hmay hreason with
      | shutdown hcancelled => exact hcancelled

/-- The count of shutdown flushes stays at zero. -/
theorem shutdownFlushes_eq_zero (h : Reaches o actions e events) (hu : Calm actions) :
    e.counters.shutdownFlushes = 0 := by
  have hcount := h.tallied.reasons .shutdown
  rw [show e.counters.flushesFor .shutdown = e.counters.shutdownFlushes from rfl] at hcount
  rw [hcount, List.countP_eq_zero]
  rintro ⟨b, reason, now⟩ hp
  rw [decide_eq_true_eq]
  rintro rfl
  have hcancelled := h.cancelled_of_shutdown hp
  rw [h.cancelled_eq_false hu] at hcancelled
  cases hcancelled

/-- A caller that looks comes back only with the result in its slot. -/
theorem settled_of_answer? (h : Reaches o actions e events) (hu : Calm actions)
    {call : Call β} (hc : e.calls[s]? = some call) (ha : e.answer? call = some result) :
    (s, result) ∈ settled events := by
  have hslot : slotAt? e.calls s = some call.slot := by rw [slotAt?, hc, Option.map_some]
  cases hcontent : call.slot with
  | filled content =>
    have hresult : content = result := by simpa [answer?, hcontent] using ha
    rw [hcontent, hresult] at hslot
    exact h.accounted.filled s result hslot
  | released =>
    rw [hcontent] at hslot
    obtain ⟨b, -, -, hkill⟩ := h.released hslot
    exact absurd hkill (hu.kill b.id)
  | empty =>
    simp [answer?, hcontent, h.cancelledTokens_eq_nil hu, h.cancelled_eq_false hu] at ha

theorem settled_of_returned (h : Reaches o actions e events) (hu : Calm actions)
    (hw : waitAt? e.calls s = some (.returned result)) : (s, result) ∈ settled events := by
  induction h with
  | built hb =>
    obtain ⟨-, rfl⟩ := build_eq_ok hb
    simp [fresh, waitAt?] at hw
  | @step actions e events action e' new hr hs ih =>
    obtain ⟨hbefore, hlast⟩ := calm_append.mp hu
    have hearlier : waitAt? e.calls s = some (.returned result) →
        (s, result) ∈ settled (events ++ new) := by
      intro hw
      exact settled_mono events new (ih hbefore hw)
    cases step_regards (step_of_step? hs) hr.sound with
    | still _ _ _ _ hwaits =>
      rw [hwaits] at hw
      exact hearlier hw
    | called _ _ _ _ hcalls =>
      rw [hcalls] at hw
      rcases waitAt?_concat hw with hw | ⟨-, hwaiting⟩
      · exact hearlier hw
      · cases hwaiting
    | @told t call r _ hc _ ha he =>
      subst he
      by_cases hst : s = t
      · subst hst
        rw [waitAt?_setWait_self hc, Option.some.injEq, Wait.returned.injEq] at hw
        subst hw
        exact settled_mono events new (hr.settled_of_answer? hbefore hc ha)
      · rw [waitAt?_setWait_of_ne hst] at hw
        exact hearlier hw
    | @left t ha => exact absurd (ha ▸ List.mem_cons_self) (hlast.leave t)
    | filled _ _ _ _ _ hcalls =>
      rw [hcalls, waitAt?_fillAll] at hw
      exact hearlier hw

end Reaches

theorem Sound.key_of_batchesUnder (h : Sound e events) {key : Key}
    (hb : b ∈ e.batchesUnder events key) : b.key = key := by
  rcases List.mem_append.mp hb with hb | hb
  · exact of_decide_eq_true (List.mem_filter.mp hb).2
  · exact h.own _ (mem_registry_of_pending? (Option.mem_toList.mp hb))

namespace Reaches

/-- A batch that was flushed has requests that were submitted under its key, in their order. -/
theorem requests_sublist (h : Reaches o actions e events) (hb : b ∈ flushed events) :
    b.requests.Sublist
      (((submissions actions).filter fun p => p.1 = b.key).map Prod.snd) := by
  have hm : b ∈ e.batchesUnder events b.key := List.mem_append_left _
    (List.mem_filter.mpr ⟨taken_of_flushed hb, by simp⟩)
  rw [← h.acceptedUnder_eq, ← h.requests_eq, List.flatMap]
  exact List.sublist_flatten_of_mem (List.mem_map_of_mem hm)

theorem mem_submissions (h : Reaches o actions e events) (hb : b ∈ flushed events) {request : α}
    (hr : request ∈ b.requests) : (b.key, request) ∈ submissions actions := by
  obtain ⟨⟨key, r⟩, hp, rfl⟩ := List.mem_map.mp ((h.requests_sublist hb).subset hr)
  obtain ⟨hp, hkey⟩ := List.mem_filter.mp hp
  rwa [← of_decide_eq_true hkey]

/-- There are at least as many batches as different keys that something was submitted under. -/
theorem length_keys_le (h : Reaches o actions e events) {keys : List Key} (nd : keys.Nodup)
    (hkeys : ∀ key ∈ keys, ∃ request, (key, request) ∈ submissions actions) :
    keys.length ≤ e.nextId := by
  have hsub : keys ⊆ (e.everyBatch events).map Batch.key := by
    intro key hkey
    obtain ⟨request, hr⟩ := hkeys key hkey
    have hunder : request ∈ (e.batchesUnder events key).flatMap Batch.requests := by
      rw [h.requests_eq, h.acceptedUnder_eq]
      exact List.mem_map_of_mem (List.mem_filter.mpr ⟨hr, decide_eq_true rfl⟩)
    obtain ⟨b, hb, -⟩ := List.mem_flatMap.mp hunder
    rw [← h.sound.key_of_batchesUnder hb]
    exact List.mem_map_of_mem (mem_everyBatch_of_batchesUnder hb)
  have hids := h.sound.ids.length_eq
  rw [List.length_map, List.length_range] at hids
  have hle := (List.subperm_of_subset nd hsub).length_le
  rwa [List.length_map, hids] at hle

theorem active_le (h : Reaches o actions e events) :
    e.counters.active ≤ o.maxRequestWorkers.toNat := by
  have hmax : e.pool.max = o.maxRequestWorkers.toNat := h.settings.workers
  have hslots := h.staffed.pool.slots
  rw [h.staffed.active]
  omega

end Reaches

theorem Asked.active (h : Asked e b e' new) :
    e'.counters.active = e.counters.active + (started new).length := by
  cases h with
  | abandoned =>
    have hnone : started (.abandoned b :: settlements (refusals b.slots) e.calls) = [] :=
      overlooks_started.settlements ..
    rw [hnone, settleAll_eq]
    rfl
  | waiting => rfl
  | granted => rfl

/-- Unless an execution ends, those that a step starts are all that it adds. -/
theorem step_active (hs : Step e a e' new) (hf : ∀ id outcome, a ≠ .finish id outcome)
    (hk : ∀ id, a ≠ .kill id) :
    e'.counters.active = e.counters.active + (started new).length := by
  cases hs with
  | aside ha =>
    have hnone : started new = [] := overlooks_started.aside ha
    rw [hnone, ha.active]
    rfl
  | flushed => exact Counters.active_countFlush ..
  | resumed => exact (askForWorker_asked ..).active
  | finished => exact absurd rfl (hf _ _)
  | lost => exact absurd rfl (hk _)
  | orphaned => exact absurd rfl (hk _)
  | vanished => exact absurd rfl (hk _)
  | dropped => exact absurd rfl (hk _)
  | aborted => exact absurd rfl (hk _)
  | _ => rfl

theorem step_active_of_finish {id : Nat} {outcome : Outcome β}
    (hs : Step e (.finish id outcome) e' new) :
    e'.counters.active = e.counters.active - 1 ∧ started new = [] := by
  cases hs with
  | aside ha => cases ha
  | finished =>
    rw [finish_eq, settleAll_eq]
    exact ⟨rfl, overlooks_started.ending ..⟩

def AllReturned (calls : List (Call β)) : Prop :=
  ∀ call ∈ calls, ∃ result, call.wait = .returned result

/-- Nothing is pending or under way. Every batch was executed; it was flushed for one of the two
timeouts, and all its requests but the first joined it. -/
structure AtRest (e : Engine α β) (events : List (Event α β)) : Prop where
  registry : e.registry = []
  started : ∀ b ∈ e.everyBatch events, b ∈ Coalesce.started events
  executions : e.counters.completed = (Coalesce.started events).length
  completed : e.counters.completed = e.nextId
  requests : e.counters.completed + e.counters.coalesced = e.calls.length
  flushes : e.counters.idleFlushes + e.counters.maxTimeoutFlushes = e.counters.completed
  shutdown : e.counters.shutdownFlushes = 0

namespace Reaches

theorem not_unsettled (h : Reaches o actions e events) (hu : Calm actions)
    (hall : AllReturned e.calls) (b : Batch α) : ¬e.Unsettled b := by
  intro hb
  obtain ⟨hne, hlen⟩ := h.sound.shape b (h.sound.mem_everyBatch hb)
  have hslots : b.slots ≠ [] := by
    rwa [← List.length_pos_iff, hlen, List.length_pos_iff]
  obtain ⟨s, hs⟩ := List.exists_mem_of_ne_nil _ hslots
  have hempty := h.delivered.empty b hb s hs
  have hlt := lt_of_slotAt? hempty
  obtain ⟨result, hreturned⟩ := hall e.calls[s] (List.getElem_mem hlt)
  have hw : waitAt? e.calls s = some (.returned result) := by
    rw [waitAt?, List.getElem?_eq_getElem hlt, Option.map_some, hreturned]
  have hfilled := h.slotAt?_of_settled (h.settled_of_returned hu hw)
  rw [hempty] at hfilled
  cases hfilled

theorem atRest (h : Reaches o actions e events) (hu : Calm actions)
    (hall : AllReturned e.calls) : AtRest e events := by
  have hsettled := h.not_unsettled hu hall
  have hregistry : e.registry = [] := by
    refine List.eq_nil_iff_forall_not_mem.mpr fun p hp => ?_
    exact hsettled p.2 (.inl (List.mem_map_of_mem hp))
  have hlooking : e.looking = [] := by
    refine List.eq_nil_iff_forall_not_mem.mpr fun t ht => ?_
    obtain ⟨hm, hq⟩ := List.mem_filter.mp ht
    cases hstage : t.stage with
    | queued b => exact hsettled b (.inr ⟨t, hm, Stage.batch?_of_queued hstage⟩)
    | _ => simp [hstage, Stage.isQueued] at hq
  have hactive : e.counters.active = 0 := by
    rw [h.staffed.active, List.length_eq_zero_iff]
    refine List.eq_nil_iff_forall_not_mem.mpr fun i hi => ?_
    obtain ⟨t, ht, -, b, hstage⟩ := (h.staffed.holding i).mp hi
    exact hsettled b (.inr ⟨t, ht, Stage.batch?_of_running hstage⟩)
  have hunlost := h.unlost (spares_of_forall_ne hu.kill)
  have hways := hunlost.ways
  simp only [h.abandoned_eq_nil hu, hlooking, List.length_nil] at hways
  have htallied := h.tallied
  have hexecutions := htallied.executions
  have heach := h.sound.length_everyBatch
  rw [hregistry, hunlost.leaving, List.length_nil] at heach
  have hjoins := htallied.joins
  rw [htallied.calls] at hjoins
  have hflushed := htallied.length_flushed
  have hshutdown := h.shutdownFlushes_eq_zero hu
  constructor
  case registry => exact hregistry
  case started =>
    intro b hb
    rw [everyBatch, batches, hregistry, hunlost.leaving, List.map_nil, List.append_nil] at hb
    rcases h.fared.fates b hb with hholds | (⟨outcome, hfinish⟩ | habandoned) | hkill
    · exact absurd (.inr hholds) (hsettled b)
    · exact (h.slots_of_finish hb hfinish).1
    · rw [h.abandoned_eq_nil hu] at habandoned
      cases habandoned
    · exact absurd hkill (hu.kill b.id)
  case executions => omega
  case completed => omega
  case requests => omega
  case flushes => omega
  case shutdown => exact hshutdown

end Reaches

end Coalesce.Engine
