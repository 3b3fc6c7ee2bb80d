import Coalesce.Proofs.Unobserved
import Mathlib.Data.List.Flatten

/-! # Polls and deliveries that overlap

A poll of a caller looks at its slot first, then at the caller's token, then at the engine's scope,
and a batch is settled by sending one result after the other. Between any two of these looks and
sends others may act. A poll that has found its slot empty may go on to find a cancellation after
the slot has been filled: the caller comes back with the cancellation, and its result is neither
read nor counted. Every other result is read, will be read at the next poll, or is counted. -/
namespace Coalesce
variable {α β : Type}

/-- What a poll that has found its slot empty looks at next. -/
inductive Poll where
  | token
  | scope
deriving DecidableEq

/-- The results of a batch on their way into its slots: those sent so far, those still to be sent,
and how many have come too late. -/
structure Sending (β : Type) where
  sent : List (Ticket × Except Error β) := []
  rest : List (Ticket × Except Error β)
  late : Nat := 0

/-- An engine with the polls and sendings that are under way. It is listed which calls have come
back with what was in their slots, and which with a cancellation. -/
structure Polling (α β : Type) where
  engine : Engine α β
  sendings : List (Sending β) := []
  polls : Ticket → Option Poll := fun _ => none
  read : List Ticket := []
  refused : List (Ticket × CancelScope) := []

def Action.isOfCaller : Action α β → Bool
  | .look _ => true
  | .leave _ => true
  | _ => false

def Engine.tokenCancelled (e : Engine α β) (s : Ticket) : Bool :=
  e.calls[s]?.any fun call => call.token ∈ e.cancelledTokens

namespace Polling

def setPoll (m : Polling α β) (s : Ticket) (poll : Option Poll) : Polling α β :=
  { m with polls := Function.update m.polls s poll }

def refuse (m : Polling α β) (s : Ticket) (scope : CancelScope) : Polling α β :=
  { m.setPoll s none with
    engine := m.engine.setWait s (.returned (.error (.cancelled scope)))
    refused := m.refused ++ [(s, scope)] }

/-- What the poll of a call does next. A cancellation stays, so a result that is sent between the
look which finds it and the call's return might as well have been sent before that look. -/
inductive Look (m : Polling α β) (s : Ticket) : Polling α β → List (Event α β) → Prop where
  | read {e' : Engine α β} {new : List (Event α β)} : m.polls s = none →
      waitAt? m.engine.calls s = some .waiting → slotAt? m.engine.calls s ≠ some .empty →
      m.engine.step? (.look s) = some (e', new) →
      Look m s { m with engine := e', read := m.read ++ [s] } new
  | began : m.polls s = none → waitAt? m.engine.calls s = some .waiting →
      slotAt? m.engine.calls s = some .empty → Look m s (m.setPoll s (some .token)) []
  | tokenLive : m.polls s = some .token → m.engine.tokenCancelled s = false →
      Look m s (m.setPoll s (some .scope)) []
  | tokenCancelled : m.polls s = some .token → m.engine.tokenCancelled s = true →
      Look m s (m.refuse s .caller) [.returned s (.error (.cancelled .caller))]
  | scopeLive : m.polls s = some .scope → m.engine.cancelled = false →
      Look m s (m.setPoll s none) []
  | scopeCancelled : m.polls s = some .scope → m.engine.cancelled = true →
      Look m s (m.refuse s .engine) [.returned s (.error (.cancelled .engine))]

/-- What may come next. A step of the engine that would settle a batch only puts the results on
their way; a result that is sent is put into its slot, and the count of those that came too late is
recorded after the last. -/
inductive Move (m : Polling α β) : Polling α β → List (Event α β) → Prop where
  | acted {a : Action α β} {e' : Engine α β} {new : List (Event α β)} : a.isOfCaller = false →
      m.engine.step? a = some (e', new) → settled new = [] → Move m { m with engine := e' } new
  | ended {a : Action α β} {e' : Engine α β} {new : List (Event α β)} : a.isOfCaller = false →
      m.engine.step? a = some (e', new) → settled new ≠ [] →
      Move m
        { m with
          engine := e'.withCalls m.engine.calls m.engine.counters.unobserved
          sendings := m.sendings ++ [{ rest := settled new }] }
        (new.filter fun event => event.settled?.isNone)
  | sent {before after : List (Sending β)} {x : Sending β} {s : Ticket} {result : Except Error β}
      {rest : List (Ticket × Except Error β)} : m.sendings = before ++ x :: after →
      x.rest = (s, result) :: rest →
      Move m
        { m with
          engine := { (m.engine.settle s result).1 with counters := m.engine.counters }
          sendings := before ++
            ⟨x.sent ++ [(s, result)], rest,
              x.late + (missed (m.engine.settle s result).2).length⟩ :: after }
        (m.engine.settle s result).2
  | recorded {before after : List (Sending β)} {x : Sending β} :
      m.sendings = before ++ x :: after → x.rest = [] →
      Move m
        { m with
          engine := m.engine.withCalls m.engine.calls (m.engine.counters.unobserved + x.late)
          sendings := before ++ after } []
  | looked {s : Ticket} {m' : Polling α β} {new : List (Event α β)} : Look m s m' new →
      Move m m' new

/-- An engine built from `o` comes to `m`, its callers staying until they come back. -/
inductive Polls (o : Options) : Polling α β → List (Event α β) → Prop where
  | built {e : Engine α β} {log : List LogEntry} : Engine.build o = .ok (e, log) →
      Polls o { engine := e } []
  | moved {m m' : Polling α β} {events new : List (Event α β)} : Polls o m events →
      Move m m' new → Polls o m' (events ++ new)

def coming (m : Polling α β) : List (Ticket × Except Error β) := m.sendings.flatMap Sending.rest

variable {m m' : Polling α β} {e e' : Engine α β} {events new : List (Event α β)} {a : Action α β}
  {actions : List (Action α β)} {b : Batch α} {s : Ticket} {o : Options} {x : Sending β}
  {before after : List (Sending β)} {result : Except Error β}

/-- The tasks that a step settles for have ended, and its results are those of the batch. -/
theorem step_settles (hs : Engine.Step e a e' new) (hb : Engine.Sound e events)
    (hne : settled new ≠ []) : ∃ t ∈ e.tasks, ∃ b, t.stage.batch? = some b ∧
      (settled new).map Prod.fst = b.slots ∧ taken new = [] ∧ e'.name = e.name ∧
      e'.tasks = (e.endTask b.id).tasks ∧ e'.registry = e.registry ∧ e'.nextId = e.nextId := by
  cases hs with
  | aside ha => exact absurd ha.settled hne
  | @resumed t b ht hq =>
    have hu : e.Unsettled b := .inr ⟨t, ht, Stage.batch?_of_queued hq⟩
    refine ⟨t, ht, b, Stage.batch?_of_queued hq, ?_⟩
    cases hres : e.askForWorker b with
    | mk e' new =>
      have hask := Engine.askForWorker_asked e b
      rw [hres] at hask hne
      cases hask with
      | abandoned =>
        rw [Engine.settled_abandon hb hu, Engine.settleAll_eq]
        exact ⟨Engine.map_fst_refusals b.slots, overlooks_taken.settlements .., rfl, rfl, rfl, rfl⟩
      | waiting => exact absurd rfl hne
      | granted => exact absurd rfl hne
  | @finished t b outcome ht hr =>
    have hu : e.Unsettled b := .inr ⟨t, ht, Stage.batch?_of_running hr⟩
    refine ⟨t, ht, b, Stage.batch?_of_running hr, ?_⟩
    rw [Engine.finish_eq, Engine.settleAll_eq, Engine.settled_finish hb hu]
    exact ⟨Engine.map_fst_shares outcome e.name b.slots, overlooks_taken.ending .., rfl, rfl, rfl,
      rfl⟩
  | _ => exact absurd rfl hne

/-- A step that settles nothing and is nobody's look leaves the callers alone. -/
theorem calls_of_step (hs : Engine.Step e a e' new) (hb : Engine.Sound e events)
    (ha : a.isOfCaller = false) (hnew : settled new = []) :
    missed new = [] ∧ e'.counters.unobserved = e.counters.unobserved ∧
      (∀ s w, waitAt? e.calls s = some w → waitAt? e'.calls s = some w) ∧
      ∀ s, isGone e'.calls s = isGone e.calls s := by
  cases Engine.step_regards hs hb with
  | still _ hmissed _ hcount hwaits =>
    refine ⟨hmissed, hcount, fun s w hw => (hwaits s).trans hw, fun s => ?_⟩
    rw [isGone, hwaits, isGone]
  | called _ hmissed _ hcount hcalls =>
    refine ⟨hmissed, hcount, fun s w hw => hcalls ▸ waitAt?_append hw _, fun s => ?_⟩
    rw [hcalls]
    cases hw : waitAt? e.calls s with
    | some w => rw [isGone_of_some (waitAt?_append hw _), isGone_of_some hw]
    | none =>
      cases hw' : waitAt? (e.calls ++ _) s with
      | none => rw [isGone, hw', isGone, hw]
      | some w =>
        rcases waitAt?_concat hw' with hold | ⟨-, rfl⟩
        · rw [hw] at hold
          cases hold
        · rw [isGone_of_some hw', isGone, hw]
          rfl
  | told heq =>
    rw [heq] at ha
    cases ha
  | left heq =>
    rw [heq] at ha
    cases ha
  | filled _ _ hsettled hmissed _ hcalls hcount =>
    obtain rfl := hnew.symm.trans hsettled
    refine ⟨List.length_eq_zero_iff.mp hmissed, hcount, fun s w hw => ?_, fun s => ?_⟩
    · rw [hcalls]
      exact hw
    · rw [hcalls]
      rfl

theorem settled_filter (new : List (Event α β)) :
    settled (new.filter fun event => event.settled?.isNone) = [] := by
  refine List.filterMap_eq_nil_iff.mpr fun event hevent => ?_
  exact Option.isNone_iff_eq_none.mp (List.mem_filter.mp hevent).2

theorem missed_filter (new : List (Event α β)) :
    missed (new.filter fun event => event.settled?.isNone) = [] := by
  have hnone := missed_sublist (new.filter fun event => event.settled?.isNone)
  rw [settled_filter] at hnone
  exact List.sublist_nil.mp hnone

theorem taken_filter (h : taken new = []) :
    taken (new.filter fun event => event.settled?.isNone) = [] := by
  refine List.filterMap_eq_nil_iff.mpr fun event hevent => ?_
  exact List.filterMap_eq_nil_iff.mp h event (List.mem_of_mem_filter hevent)

theorem coming_append (m : Polling α β) (e : Engine α β) (x : Sending β) :
    coming { m with engine := e, sendings := m.sendings ++ [x] } = m.coming ++ x.rest := by
  rw [coming, List.flatMap_append, List.flatMap_singleton, coming]

theorem missed_settled (s : Ticket) (result : Except Error β) (observed : Bool) :
    missed [(.settled s result observed : Event α β)] = if observed then [] else [s] := by
  cases observed <;> rfl

theorem notMem_settled (h : e.Delivered events) (hempty : slotAt? e.calls s = some .empty) :
    s ∉ (settled events).map Prod.fst := by
  intro hs
  obtain ⟨p, hp, rfl⟩ := List.mem_map.mp hs
  rw [h.filled p hp] at hempty
  cases hempty

theorem settle_of_wait {w : Wait β} (h : waitAt? e.calls s = some w) (result : Except Error β) :
    e.settle s result =
      (e.withCalls (fillAll [(s, result)] e.calls)
        (e.counters.unobserved + if isGone e.calls s then 1 else 0),
        [.settled s result w.isWaiting]) := by
  rw [Engine.settle_eq]
  simp [settlements, h]

/-- One result is put into an empty slot that is of no batch still to be settled. -/
theorem delivered_put (h : e.Delivered events) (hempty : slotAt? e.calls s = some .empty)
    (hout : ∀ c, e.Unsettled c → s ∉ c.slots) (hnew : settled new = [(s, result)]) :
    Engine.Delivered { e with calls := fillAll [(s, result)] e.calls } (events ++ new) := by
  have hunfilled := notMem_settled h hempty
  have hother : ∀ s', s' ≠ s →
      slotAt? (fillAll [(s, result)] e.calls) s' = slotAt? e.calls s' := by
    intro s' hne
    exact slotAt?_fillAll_of_notMem (by simpa using hne) e.calls
  constructor
  case empty =>
    intro c hc s' hs'
    have hne : s' ≠ s := fun heq => hout c hc (heq ▸ hs')
    exact (hother s' hne).trans (h.empty c hc s' hs')
  case once =>
    rw [settled_append, hnew, List.map_append]
    refine List.nodup_append.mpr ⟨h.once, List.nodup_singleton _, ?_⟩
    rintro s₁ hs₁ s₂ hs₂ rfl
    obtain rfl : s₁ = s := by simpa using hs₂
    exact hunfilled hs₁
  case filled =>
    rw [settled_append, hnew]
    intro p hp
    rcases List.mem_append.mp hp with hp | hp
    · have hne : p.1 ≠ s := fun heq => hunfilled (heq ▸ List.mem_map_of_mem hp)
      exact (hother p.1 hne).trans (h.filled p hp)
    · obtain rfl := List.mem_singleton.mp hp
      exact slotAt?_fillAll_of_mem (by simp) List.mem_cons_self (Engine.lt_of_slotAt? hempty)

/-- The results that are still to be sent, with the first of one sending told apart. -/
theorem coming_perm {rest : List (Ticket × Except Error β)} {x' : Sending β}
    (hm : m.sendings = before ++ x :: after) (hx : x.rest = (s, result) :: rest)
    (hx' : x'.rest = rest) (e : Engine α β) :
    m.coming.Perm
      ((s, result) :: coming { m with engine := e, sendings := before ++ x' :: after }) := by
  simp only [coming, hm, List.flatMap_append, List.flatMap_cons, hx, hx', List.cons_append]
  exact List.perm_middle

theorem polls_setPoll {s' : Ticket} (h : s' ≠ s) {poll : Option Poll} :
    (m.setPoll s poll).polls s' = m.polls s' := Function.update_of_ne h ..

theorem isGone_returned {call : Call β} {result : Except Error β} (hc : e.calls[s]? = some call)
    {s' : Ticket} :
    isGone (e.setWait s (.returned result)).calls s' = true ↔
      isGone e.calls s' = true ∨ s' = s := by
  by_cases heq : s' = s
  · subst heq
    simp [isGone_of_some (Engine.waitAt?_setWait_self hc (.returned result)), Wait.isWaiting]
  · rw [isGone, Engine.waitAt?_setWait_of_ne heq, isGone]
    simp [heq]

/-- A caller that looks at a slot that is not empty comes back. -/
theorem look_found (hw : waitAt? e.calls s = some .waiting)
    (hslot : slotAt? e.calls s ≠ some .empty) (hs : e.step? (.look s) = some (e', new)) :
    ∃ call result, e.calls[s]? = some call ∧ e.answer? call = some result ∧
      e' = e.setWait s (.returned result) ∧ new = [.returned s result] := by
  obtain ⟨call, hc, hwait⟩ := Option.map_eq_some_iff.mp hw
  have hwaiting : call.wait.isWaiting = true := by rw [hwait]; rfl
  have hanswer : ∃ result, e.answer? call = some result := by
    cases hcontent : call.slot with
    | empty =>
      rw [slotAt?, hc, Option.map_some, hcontent] at hslot
      exact absurd rfl hslot
    | filled result => exact ⟨result, by simp [Engine.answer?, hcontent]⟩
    | released => exact ⟨.error (Engine.droppedError e.name), by simp [Engine.answer?, hcontent]⟩
  obtain ⟨result, hresult⟩ := hanswer
  refine ⟨call, result, hc, hresult, ?_⟩
  simpa [Engine.step?, Engine.look, hc, hwaiting, hresult, eq_comm] using hs

/-- A sending in the place of another. -/
theorem forall_mem_replace {P : Sending β → Prop} {sendings : List (Sending β)} {x' : Sending β}
    (hm : sendings = before ++ x :: after) (hx : P x') (h : ∀ y ∈ sendings, P y) :
    ∀ y ∈ before ++ x' :: after, P y := by
  rw [hm] at h
  intro y hy
  rcases List.mem_append.mp hy with hy | hy
  · exact h y (List.mem_append_left _ hy)
  · rcases List.mem_cons.mp hy with rfl | hy
    · exact hx
    · exact h y (List.mem_append_right _ (List.mem_cons_of_mem _ hy))

/-- The sendings under way are each for a batch of its own, whose task has ended. -/
structure Addressed (m : Polling α β) (events : List (Event α β)) : Prop where
  sendings : ∀ x ∈ m.sendings, ∃ b ∈ flushed events, (x.sent ++ x.rest).map Prod.fst = b.slots ∧
    ∀ t ∈ m.engine.tasks, t.id ≠ b.id
  empty : ∀ p ∈ m.coming, slotAt? m.engine.calls p.1 = some .empty
  once : (m.coming.map Prod.fst).Nodup

structure Heard (m : Polling α β) (events : List (Event α β)) : Prop where
  gone : ∀ s, isGone m.engine.calls s = true ↔ s ∈ m.read ∨ s ∈ m.refused.map Prod.fst
  apart : ∀ s ∈ m.read, s ∉ m.refused.map Prod.fst
  told : ∀ s ∈ m.read, ∃ slot, slotAt? m.engine.calls s = some slot ∧ slot ≠ .empty ∧
    ∀ result, slot = .filled result → waitAt? m.engine.calls s = some (.returned result)
  polls : ∀ s, m.polls s ≠ none → waitAt? m.engine.calls s = some .waiting
  late : ∀ s ∈ missed events, s ∈ m.refused.map Prod.fst

structure Tallied (m : Polling α β) (events : List (Event α β)) : Prop where
  sent : ∀ x ∈ m.sendings, x.sent ⊆ settled events
  late : ∀ x ∈ m.sendings, x.late = x.sent.countP fun p => p.1 ∈ missed events
  count : m.engine.counters.unobserved + (m.sendings.map Sending.late).sum = (missed events).length

structure Tracked (o : Options) (m : Polling α β) (events : List (Event α β)) : Prop where
  name : m.engine.name = o.name
  sound : m.engine.Sound events
  delivered : m.engine.Delivered events
  addressed : Addressed m events
  heard : Heard m events
  tallied : Tallied m events

theorem Addressed.keep (h : Addressed m events) (hsub : m'.sendings.Sublist m.sendings)
    (htasks : ∀ b ∈ flushed events, (∀ t ∈ m.engine.tasks, t.id ≠ b.id) →
      ∀ t ∈ m'.engine.tasks, t.id ≠ b.id)
    (hempty : ∀ p ∈ m.coming, slotAt? m'.engine.calls p.1 = some .empty) :
    Addressed m' (events ++ new) := by
  have hcoming : m'.coming.Sublist m.coming := hsub.flatMap Sending.rest
  constructor
  case sendings =>
    intro x hx
    obtain ⟨b, hb, hslots, hgone⟩ := h.sendings x (hsub.subset hx)
    exact ⟨b, flushed_mono hb new, hslots, htasks b hb hgone⟩
  case empty => exact fun p hp => hempty p (hcoming.subset hp)
  case once => exact h.once.sublist (hcoming.map Prod.fst)

theorem Heard.keep (h : Heard m events)
    (hgone : ∀ s, isGone m'.engine.calls s = isGone m.engine.calls s)
    (hwaits : ∀ s w, waitAt? m.engine.calls s = some w → waitAt? m'.engine.calls s = some w)
    (hslots : ∀ s slot, slotAt? m.engine.calls s = some slot → slot ≠ .empty →
      slotAt? m'.engine.calls s = some slot)
    (hpolls : m'.polls = m.polls) (hread : m'.read = m.read) (hrefused : m'.refused = m.refused)
    (hlate : ∀ s ∈ missed new, s ∈ m.refused.map Prod.fst) : Heard m' (events ++ new) := by
  constructor
  case gone =>
    rw [hread, hrefused]
    exact fun s => (hgone s) ▸ h.gone s
  case apart =>
    rw [hread, hrefused]
    exact h.apart
  case told =>
    rw [hread]
    intro s hs
    obtain ⟨slot, hslot, hne, hresult⟩ := h.told s hs
    exact ⟨slot, hslots s slot hslot hne, hne, fun result heq => hwaits s _ (hresult result heq)⟩
  case polls =>
    rw [hpolls]
    exact fun s hs => hwaits s _ (h.polls s hs)
  case late =>
    rw [missed_append, hrefused]
    intro s hs
    exact (List.mem_append.mp hs).elim (h.late s) (hlate s)

theorem Tallied.keep (h : Tallied m events) (hsendings : m'.sendings = m.sendings)
    (hcount : m'.engine.counters.unobserved = m.engine.counters.unobserved)
    (hmissed : missed new = []) : Tallied m' (events ++ new) := by
  have hsame : missed (events ++ new) = missed events := by
    rw [missed_append, hmissed, List.append_nil]
  constructor
  case sent =>
    rw [hsendings]
    exact fun x hx p hp => Engine.settled_mono events new (h.sent x hx hp)
  case late =>
    rw [hsendings, hsame]
    exact h.late
  case count =>
    rw [hsendings, hsame, hcount]
    exact h.count

theorem Heard.unread (h : Heard m events) (hw : waitAt? m.engine.calls s = some .waiting) :
    s ∉ m.read ∧ s ∉ m.refused.map Prod.fst := by
  rw [← not_or, ← h.gone, isGone_of_some hw]
  simp [Wait.isWaiting]

/-- What others have read is not touched when a call comes back. -/
theorem Heard.told_setWait (h : Heard m events) (hw : waitAt? m.engine.calls s = some .waiting)
    (wait : Wait β) {s' : Ticket} (hs' : s' ∈ m.read) :
    ∃ slot, slotAt? (m.engine.setWait s wait).calls s' = some slot ∧ slot ≠ .empty ∧
      ∀ result, slot = .filled result →
        waitAt? (m.engine.setWait s wait).calls s' = some (.returned result) := by
  have hne : s' ≠ s := fun heq => (h.unread hw).1 (heq ▸ hs')
  obtain ⟨slot, hslot, hempty, hresult⟩ := h.told s' hs'
  refine ⟨slot, ?_, hempty, fun result heq => ?_⟩
  · rw [Engine.slotAt?_setWait, hslot]
  · rw [Engine.waitAt?_setWait_of_ne hne, hresult result heq]

theorem Addressed.put (h : Addressed m events) (hm : m.sendings = before ++ x :: after)
    {rest : List (Ticket × Except Error β)} (hx : x.rest = (s, result) :: rest) {x' : Sending β}
    (hsent : x'.sent = x.sent ++ [(s, result)]) (hrest : x'.rest = rest)
    (htasks : e'.tasks = m.engine.tasks)
    (hslot : ∀ s', s' ≠ s → slotAt? e'.calls s' = slotAt? m.engine.calls s') :
    Addressed { m with engine := e', sendings := before ++ x' :: after } (events ++ new) := by
  have hperm := coming_perm hm hx hrest e'
  obtain ⟨hfirst, hothers⟩ := List.nodup_cons.mp ((hperm.map Prod.fst).nodup_iff.mp h.once)
  have hmem : x ∈ m.sendings := hm ▸ List.mem_append_right _ List.mem_cons_self
  constructor
  case sendings =>
    refine forall_mem_replace hm ?_ fun y hy => ?_
    · obtain ⟨b, hb, hslots, hgone⟩ := h.sendings x hmem
      refine ⟨b, flushed_mono hb _, ?_, htasks ▸ hgone⟩
      rw [hsent, hrest, List.append_assoc, List.singleton_append, ← hx]
      exact hslots
    · obtain ⟨b, hb, hslots, hgone⟩ := h.sendings y hy
      exact ⟨b, flushed_mono hb _, hslots, htasks ▸ hgone⟩
  case empty =>
    intro p hp
    have hne : p.1 ≠ s := fun heq => hfirst (List.mem_map.mpr ⟨p, hp, heq⟩)
    exact (hslot p.1 hne).trans (h.empty p (hperm.mem_iff.mpr (List.mem_cons_of_mem _ hp)))
  case once => exact hothers

/-- A result that comes too late is counted with the sending. -/
theorem Tallied.put (h : Tallied m events) (hm : m.sendings = before ++ x :: after)
    (hs : s ∉ (settled events).map Prod.fst) {rest : List (Ticket × Except Error β)}
    {result : Except Error β} (observed : Bool)
    (hcount : e'.counters.unobserved = m.engine.counters.unobserved) :
    Tallied
      { m with
        engine := e'
        sendings := before ++
          ⟨x.sent ++ [(s, result)], rest, x.late + if observed then 0 else 1⟩ :: after }
      (events ++ [.settled s result observed]) := by
  have hmem : x ∈ m.sendings := hm ▸ List.mem_append_right _ List.mem_cons_self
  have hmissed : missed (events ++ [.settled s result observed]) =
      missed events ++ if observed then [] else [s] := by
    rw [missed_append, missed_settled]
  -- nothing that was sent before is for `s`
  have hlate : ∀ y ∈ m.sendings, (y.sent.countP fun p =>
      p.1 ∈ missed (events ++ [.settled s result observed])) = y.late := by
    intro y hy
    rw [h.late y hy, hmissed]
    refine List.countP_congr fun p hp => ?_
    have hne : p.1 ≠ s := fun heq => hs (heq ▸ List.mem_map_of_mem (h.sent y hy hp))
    cases observed <;> simp [hne]
  constructor
  case sent =>
    refine forall_mem_replace hm (fun p hp => ?_) fun y hy p hp =>
      Engine.settled_mono events _ (h.sent y hy hp)
    rcases List.mem_append.mp hp with hp | hp
    · exact Engine.settled_mono events _ (h.sent x hmem hp)
    · rw [settled_append]
      exact List.mem_append_right _ hp
  case late =>
    refine forall_mem_replace hm ?_ fun y hy => (hlate y hy).symm
    rw [List.countP_append, hlate x hmem, hmissed]
    have hnot : s ∉ missed events := fun hin => hs ((missed_sublist events).subset hin)
    cases observed <;> simp [hnot]
  case count =>
    have hold := h.count
    rw [hm] at hold
    rw [hmissed, hcount]
    cases observed <;> simp at hold ⊢ <;> omega

namespace Tracked

/-- A result that is still to be sent is of no batch that a task has or will have. -/
theorem notMem_slots (h : Tracked o m events) {p : Ticket × Except Error β} (hp : p ∈ m.coming)
    (hu : m.engine.Unsettled b) : p.1 ∉ b.slots := by
  obtain ⟨x, hx, hpx⟩ := List.mem_flatMap.mp hp
  obtain ⟨c, hc, hslots, htasks⟩ := h.addressed.sendings x hx
  intro hs
  have hsc : p.1 ∈ c.slots := by
    rw [← hslots, List.map_append]
    exact List.mem_append_right _ (List.mem_map_of_mem hpx)
  obtain rfl : b = c := h.sound.batch_of_slot (h.sound.mem_everyBatch hu)
    (List.mem_append_left _ (taken_of_flushed hc)) hs hsc
  rcases hu with hu | ⟨t, ht, hb⟩
  · obtain ⟨q, hq, rfl⟩ := List.mem_map.mp hu
    exact h.sound.notMem_flushed hq hc
  · exact htasks t ht (h.sound.holding t ht b hb).2.symm

/-- A slot that is not empty is of no batch still to be settled. -/
theorem notMem_slots_of_ne (h : Tracked o m events) {slot : Slot β}
    (hslot : slotAt? m.engine.calls s = some slot) (hne : slot ≠ .empty)
    (hu : m.engine.Unsettled b) : s ∉ b.slots := by
  intro hs
  rw [h.delivered.empty b hu s hs] at hslot
  exact hne (Option.some.inj hslot).symm

/-- A call whose slot is empty has come back only with a cancellation. -/
theorem mem_refused (h : Tracked o m events) (hempty : slotAt? m.engine.calls s = some .empty)
    (hgone : isGone m.engine.calls s = true) : s ∈ m.refused.map Prod.fst := by
  refine ((h.heard.gone s).mp hgone).resolve_left fun hread => ?_
  obtain ⟨slot, hslot, hne, -⟩ := h.heard.told s hread
  rw [hempty] at hslot
  exact hne (Option.some.inj hslot).symm

theorem acted (h : Tracked o m events) (ha : a.isOfCaller = false)
    (hs : m.engine.step? a = some (e', new)) (hnew : settled new = []) :
    Tracked o { m with engine := e' } (events ++ new) := by
  have hstep := Engine.step_of_step? hs
  obtain ⟨hmissed, hcount, hwaits, hgone⟩ := calls_of_step hstep h.sound ha hnew
  constructor
  case name => exact (Engine.step_sameSettings hstep).name.trans h.name
  case sound => exact Engine.step_sound hstep h.sound
  case delivered => exact Engine.step_delivered hstep h.sound h.delivered
  case addressed =>
    refine h.addressed.keep (List.Sublist.refl _) (fun b hb hgone u hu hid => ?_) fun p hp => ?_
    · rcases Engine.step_task_ids hstep hu with ⟨t, ht, hti⟩ | hnext
      · exact hgone t ht (hti.trans hid)
      · have hlt := h.sound.id_lt (List.mem_append_left _ (taken_of_flushed hb))
        omega
    · exact Engine.step_slotAt? hstep (h.addressed.empty p hp) fun b hu => h.notMem_slots hp hu
  case heard =>
    refine h.heard.keep hgone hwaits (fun s slot hslot hne => ?_) rfl rfl rfl (by simp [hmissed])
    exact Engine.step_slotAt? hstep hslot fun b hu => h.notMem_slots_of_ne hslot hne hu
  case tallied => exact h.tallied.keep rfl hcount hmissed

/-- The results of a batch whose task ends are addressed to slots that no other results are for. -/
theorem addressed_ended (h : Tracked o m events) (hu : m.engine.Unsettled b)
    (hb : b ∈ flushed events) {results : List (Ticket × Except Error β)}
    (hslots : results.map Prod.fst = b.slots) (hcalls : e'.calls = m.engine.calls)
    (htasks : e'.tasks = (m.engine.endTask b.id).tasks) :
    Addressed { m with engine := e', sendings := m.sendings ++ [{ rest := results }] }
      (events ++ new) := by
  have htasks' : ∀ u ∈ e'.tasks, u ∈ m.engine.tasks ∧ u.id ≠ b.id := by
    intro u hu
    rw [htasks] at hu
    exact Keyed.mem_others.mp hu
  constructor
  case sendings =>
    intro x hx
    rcases List.mem_append.mp hx with hx | hx
    · obtain ⟨c, hc, hslots, hgone⟩ := h.addressed.sendings x hx
      exact ⟨c, flushed_mono hc _, hslots, fun u hu => hgone u (htasks' u hu).1⟩
    · obtain rfl := List.mem_singleton.mp hx
      exact ⟨b, flushed_mono hb _, hslots, fun u hu => (htasks' u hu).2⟩
  case empty =>
    rw [coming_append, hcalls]
    intro p hp
    rcases List.mem_append.mp hp with hp | hp
    · exact h.addressed.empty p hp
    · exact h.delivered.empty b hu p.1 (hslots ▸ List.mem_map_of_mem hp)
  case once =>
    rw [coming_append, List.map_append, hslots]
    refine List.nodup_append.mpr ⟨h.addressed.once, ?_, ?_⟩
    · exact (List.nodup_flatMap.mp h.sound.slots_nodup).1 b (h.sound.mem_everyBatch hu)
    · rintro s hs s' hs' rfl
      obtain ⟨p, hp, rfl⟩ := List.mem_map.mp hs
      exact h.notMem_slots hp hu hs'

/-- A step that settles a batch puts the results on their way. -/
theorem ended (h : Tracked o m events) (hs : m.engine.step? a = some (e', new))
    (hne : settled new ≠ []) :
    Tracked o
      { m with
        engine := e'.withCalls m.engine.calls m.engine.counters.unobserved
        sendings := m.sendings ++ [{ rest := settled new }] }
      (events ++ new.filter fun event => event.settled?.isNone) := by
  obtain ⟨t, ht, b, hheld, hslots, htaken, hname, htasks, hregistry, hnext⟩ :=
    step_settles (Engine.step_of_step? hs) h.sound hne
  have hu : m.engine.Unsettled b := .inr ⟨t, ht, hheld⟩
  have hmissed := missed_filter new
  have hbooks : Engine.SameBooks (m.engine.endTask b.id)
      (e'.withCalls m.engine.calls m.engine.counters.unobserved) := ⟨hregistry, htasks, hnext, rfl⟩
  constructor
  case name => exact hname.trans h.name
  case sound => exact (h.sound.endTask b.id).congr hbooks (taken_filter htaken)
  case delivered =>
    refine h.delivered.congr (settled_filter new) (fun s => rfl) fun c hc => ?_
    rw [Engine.Unsettled, Engine.batches, Engine.Holds, hbooks.registry, hbooks.tasks] at hc
    exact Engine.unsettled_endTask hc
  case addressed => exact h.addressed_ended hu (h.sound.holding t ht b hheld).1 hslots rfl htasks
  case heard =>
    exact h.heard.keep (fun s => rfl) (fun s w hw => hw) (fun s slot hslot _ => hslot) rfl rfl rfl
      (by simp [hmissed])
  case tallied =>
    have hsame : missed (events ++ new.filter fun event => event.settled?.isNone) =
        missed events := by
      rw [missed_append, hmissed, List.append_nil]
    refine ⟨fun x hx => ?_, ?_, ?_⟩
    · rcases List.mem_append.mp hx with hx | hx
      · exact fun p hp => Engine.settled_mono events _ (h.tallied.sent x hx hp)
      · obtain rfl := List.mem_singleton.mp hx
        exact List.nil_subset _
    · rw [hsame]
      intro x hx
      rcases List.mem_append.mp hx with hx | hx
      · exact h.tallied.late x hx
      · obtain rfl := List.mem_singleton.mp hx
        rfl
    · rw [hsame, List.map_append, List.sum_append]
      exact h.tallied.count

theorem slot_of_rest (h : Tracked o m events) (hm : m.sendings = before ++ x :: after)
    {rest : List (Ticket × Except Error β)} (hx : x.rest = (s, result) :: rest) :
    (s, result) ∈ m.coming ∧ slotAt? m.engine.calls s = some .empty := by
  have hmem : x ∈ m.sendings := hm ▸ List.mem_append_right _ List.mem_cons_self
  have hcoming : (s, result) ∈ m.coming :=
    List.mem_flatMap.mpr ⟨x, hmem, hx ▸ List.mem_cons_self⟩
  exact ⟨hcoming, h.addressed.empty _ hcoming⟩

/-- One result is sent, to a call that waits or has come back with a cancellation. -/
theorem put (h : Tracked o m events) (hm : m.sendings = before ++ x :: after)
    {rest : List (Ticket × Except Error β)} (hx : x.rest = (s, result) :: rest) {w : Wait β}
    (hw : waitAt? m.engine.calls s = some w) :
    Tracked o
      { m with
        engine := { m.engine with calls := fillAll [(s, result)] m.engine.calls }
        sendings := before ++
          ⟨x.sent ++ [(s, result)], rest, x.late + if w.isWaiting then 0 else 1⟩ :: after }
      (events ++ [.settled s result w.isWaiting]) := by
  obtain ⟨hcoming, hempty⟩ := h.slot_of_rest hm hx
  have hslot : ∀ s', s' ≠ s →
      slotAt? (fillAll [(s, result)] m.engine.calls) s' = slotAt? m.engine.calls s' := by
    intro s' hne
    exact slotAt?_fillAll_of_notMem (by simpa using hne) m.engine.calls
  constructor
  case name => exact h.name
  case sound => exact h.sound.congr ⟨rfl, rfl, rfl, length_fillAll ..⟩ rfl
  case delivered =>
    exact delivered_put h.delivered hempty (fun c hu => h.notMem_slots hcoming hu) rfl
  case addressed => exact h.addressed.put hm hx rfl rfl rfl hslot
  case heard =>
    refine h.heard.keep (fun s' => ?_) (fun s' w' hw' => ?_) (fun s' slot hslot' hne => ?_) rfl rfl
      rfl fun s' hs' => ?_
    · rw [isGone_fillAll]
    · rw [waitAt?_fillAll, hw']
    · refine (hslot s' ?_).trans hslot'
      rintro rfl
      rw [hempty] at hslot'
      exact hne (Option.some.inj hslot').symm
    · rw [missed_settled] at hs'
      cases hwait : w.isWaiting with
      | true =>
        rw [hwait] at hs'
        cases hs'
      | false =>
        rw [hwait] at hs'
        obtain rfl := List.mem_singleton.mp hs'
        exact h.mem_refused hempty (by rw [isGone_of_some hw, hwait]; rfl)
  case tallied => exact h.tallied.put hm (notMem_settled h.delivered hempty) w.isWaiting rfl

theorem sentOne (h : Tracked o m events) (hm : m.sendings = before ++ x :: after)
    {rest : List (Ticket × Except Error β)} (hx : x.rest = (s, result) :: rest) :
    Tracked o
      { m with
        engine := { (m.engine.settle s result).1 with counters := m.engine.counters }
        sendings := before ++
          ⟨x.sent ++ [(s, result)], rest,
            x.late + (missed (m.engine.settle s result).2).length⟩ :: after }
      (events ++ (m.engine.settle s result).2) := by
  obtain ⟨w, hw⟩ := exists_waitAt? (Engine.lt_of_slotAt? (h.slot_of_rest hm hx).2)
  have hput := h.put hm hx hw
  have hlate : (missed [(.settled s result w.isWaiting : Event α β)]).length =
      if w.isWaiting then 0 else 1 := by
    rw [missed_settled]
    cases w.isWaiting <;> rfl
  rw [settle_of_wait hw, hlate]
  exact hput

/-- A sending that is over is counted. -/
theorem recorded (h : Tracked o m events) (hm : m.sendings = before ++ x :: after) :
    Tracked o
      { m with
        engine := m.engine.withCalls m.engine.calls (m.engine.counters.unobserved + x.late)
        sendings := before ++ after } (events ++ []) := by
  have hsub : (before ++ after).Sublist m.sendings := by
    rw [hm]
    exact (List.sublist_cons_self x after).append_left before
  constructor
  case name => exact h.name
  case sound => exact h.sound.congr ⟨rfl, rfl, rfl, rfl⟩ rfl
  case delivered => exact h.delivered.congr rfl (fun s => rfl) fun c hc => hc
  case addressed => exact h.addressed.keep hsub (fun b hb hgone => hgone) h.addressed.empty
  case heard =>
    exact h.heard.keep (fun s => rfl) (fun s w hw => hw) (fun s slot hslot _ => hslot) rfl rfl rfl
      (by simp [missed])
  case tallied =>
    rw [List.append_nil]
    refine ⟨fun y hy => h.tallied.sent y (hsub.subset hy),
      fun y hy => h.tallied.late y (hsub.subset hy), ?_⟩
    have hcount := h.tallied.count
    rw [hm] at hcount
    simp [Engine.withCalls] at hcount ⊢
    omega

theorem begun (h : Tracked o m events) (hw : waitAt? m.engine.calls s = some .waiting)
    (poll : Option Poll) : Tracked o (m.setPoll s poll) (events ++ []) := by
  rw [List.append_nil]
  obtain ⟨hname, hsound, hdelivered, haddressed, hheard, htallied⟩ := h
  refine ⟨hname, hsound, hdelivered, ⟨haddressed.1, haddressed.2, haddressed.3⟩, ?_,
    ⟨htallied.1, htallied.2, htallied.3⟩⟩
  refine ⟨hheard.gone, hheard.apart, hheard.told, fun s' hs' => ?_, hheard.late⟩
  by_cases heq : s' = s
  · rw [heq]
    exact hw
  · exact hheard.polls s' fun hnone => hs' ((polls_setPoll heq).trans hnone)

/-- A call comes back, whatever it is told. -/
theorem back (h : Tracked o m events) (result : Except Error β)
    (hengine : m'.engine = m.engine.setWait s (.returned result))
    (hsendings : m'.sendings = m.sendings)
    (hheard : Heard m' (events ++ [.returned s result])) :
    Tracked o m' (events ++ [.returned s result]) := by
  have hslots : ∀ s', slotAt? m'.engine.calls s' = slotAt? m.engine.calls s' := by
    intro s'
    rw [hengine, Engine.slotAt?_setWait]
  constructor
  case name => rw [hengine, Engine.setWait, h.name]
  case sound =>
    refine h.sound.congr ?_ rfl
    rw [hengine]
    exact ⟨rfl, rfl, rfl, List.length_modify ..⟩
  case delivered =>
    refine h.delivered.congr rfl hslots fun c hc => ?_
    rw [hengine] at hc
    exact hc
  case addressed =>
    refine h.addressed.keep (hsendings ▸ List.Sublist.refl _) (fun b hb hgone => ?_) fun p hp => ?_
    · rw [hengine]
      exact hgone
    · rw [hslots]
      exact h.addressed.empty p hp
  case heard => exact hheard
  case tallied =>
    refine h.tallied.keep hsendings ?_ rfl
    rw [hengine, Engine.setWait]

theorem readOne (h : Tracked o m events) (hp : m.polls s = none)
    (hw : waitAt? m.engine.calls s = some .waiting)
    (hslot : slotAt? m.engine.calls s ≠ some .empty)
    (hs : m.engine.step? (.look s) = some (e', new)) :
    Tracked o { m with engine := e', read := m.read ++ [s] } (events ++ new) := by
  obtain ⟨call, result, hc, hanswer, rfl, rfl⟩ := look_found hw hslot hs
  have hself : waitAt? (m.engine.setWait s (.returned result)).calls s = some (.returned result) :=
    Engine.waitAt?_setWait_self hc _
  have hunread := h.heard.unread hw
  refine h.back result rfl rfl ?_
  constructor
  case gone =>
    intro s'
    rw [isGone_returned hc, h.heard.gone, List.mem_append, List.mem_singleton]
    tauto
  case apart =>
    intro s' hs'
    rcases List.mem_append.mp hs' with hs' | hs'
    · exact h.heard.apart s' hs'
    · rw [List.mem_singleton.mp hs']
      exact hunread.2
  case told =>
    intro s' hs'
    rcases List.mem_append.mp hs' with hs' | hs'
    · exact h.heard.told_setWait hw _ hs'
    · rw [List.mem_singleton.mp hs']
      refine ⟨call.slot, ?_, fun hempty => ?_, fun content hfilled => ?_⟩
      · rw [Engine.slotAt?_setWait, slotAt?, hc, Option.map_some]
      · rw [slotAt?, hc, Option.map_some, hempty] at hslot
        exact hslot rfl
      · have hsame : content = result := by simpa [Engine.answer?, hfilled] using hanswer
        rw [hself, hsame]
  case polls =>
    intro s' hs'
    have hne : s' ≠ s := by
      rintro rfl
      exact hs' hp
    rw [Engine.waitAt?_setWait_of_ne hne]
    exact h.heard.polls s' hs'
  case late =>
    rw [missed_append]
    simpa [missed, Event.missed?] using h.heard.late

theorem refusedOne (h : Tracked o m events) (hw : waitAt? m.engine.calls s = some .waiting)
    (scope : CancelScope) :
    Tracked o (m.refuse s scope) (events ++ [.returned s (.error (.cancelled scope))]) := by
  obtain ⟨call, hc, -⟩ := Option.map_eq_some_iff.mp hw
  have hunread := h.heard.unread hw
  have hread : ∀ s' ∈ m.read, s' ≠ s := fun s' hs' heq => hunread.1 (heq ▸ hs')
  refine h.back _ rfl rfl ?_
  constructor
  case gone =>
    intro s'
    rw [refuse, isGone_returned hc, h.heard.gone, List.map_append, List.mem_append]
    simp only [List.map_singleton, List.mem_singleton]
    tauto
  case apart =>
    intro s' hs'
    rw [refuse, List.map_append, List.mem_append, not_or]
    exact ⟨h.heard.apart s' hs', by simpa using hread s' hs'⟩
  case told => exact fun s' hs' => h.heard.told_setWait hw _ hs'
  case polls =>
    intro s' hs'
    have hne : s' ≠ s := by
      rintro rfl
      simp [refuse, setPoll] at hs'
    rw [refuse, Engine.waitAt?_setWait_of_ne hne]
    exact h.heard.polls s' fun hnone => hs' ((polls_setPoll hne).trans hnone)
  case late =>
    rw [missed_append, refuse, List.map_append]
    intro s' hs'
    refine List.mem_append_left _ (h.heard.late s' ?_)
    simpa [missed, Event.missed?] using hs'

theorem looked (h : Tracked o m events) (hl : Look m s m' new) : Tracked o m' (events ++ new) := by
  cases hl with
  | read hp hw hslot hs => exact h.readOne hp hw hslot hs
  | began _ hw => exact h.begun hw _
  | tokenLive hp => exact h.begun (h.heard.polls s (by simp [hp])) _
  | tokenCancelled hp => exact h.refusedOne (h.heard.polls s (by simp [hp])) _
  | scopeLive hp => exact h.begun (h.heard.polls s (by simp [hp])) _
  | scopeCancelled hp => exact h.refusedOne (h.heard.polls s (by simp [hp])) _

theorem move (h : Tracked o m events) (hm : Move m m' new) : Tracked o m' (events ++ new) := by
  cases hm with
  | acted ha hs hnew => exact h.acted ha hs hnew
  | ended _ hs hne => exact h.ended hs hne
  | sent hm hx => exact h.sentOne hm hx
  | recorded hm => exact h.recorded hm
  | looked hl => exact h.looked hl

end Tracked

theorem Polls.tracked (h : Polls o m events) : Tracked o m events := by
  induction h with
  | built hb =>
    obtain ⟨-, rfl⟩ := Engine.build_eq_ok hb
    refine ⟨rfl, Engine.fresh_sound o, Engine.fresh_delivered o, ?_, ?_, ?_⟩
    · constructor <;> simp [coming]
    · constructor <;> simp [missed, isGone, waitAt?, Engine.fresh]
    · constructor <;> simp [missed, Engine.fresh]
  | moved _ hm ih => exact ih.move hm

/-- A poll that finds nothing but a cancellation, its looks following each other at once. -/
theorem Polls.look_empty (h : Polls o m events) (hp : m.polls s = none) {call : Call β}
    (hc : m.engine.calls[s]? = some call) (hw : call.wait = .waiting) (hempty : call.slot = .empty)
    (hs : m.engine.look s = (e', new)) :
    ∃ m', Polls o m' (events ++ new) ∧ m'.engine = e' ∧ m'.sendings = m.sendings ∧
      m'.polls = m.polls := by
  have hback : ∀ v, Function.update (Function.update m.polls s v) s none = m.polls := by
    intro v
    rw [Function.update_idem, ← hp, Function.update_eq_self]
  have hbegan : Polls o (m.setPoll s (some .token)) (events ++ []) := by
    refine h.moved (.looked (.began hp ?_ ?_))
    · rw [waitAt?, hc, Option.map_some, hw]
    · rw [slotAt?, hc, Option.map_some, hempty]
  have hself : ∀ poll, (m.setPoll s (some poll)).polls s = some poll := fun poll =>
    Function.update_self ..
  rw [List.append_nil] at hbegan
  by_cases htoken : call.token ∈ m.engine.cancelledTokens
  · have hlook : m.engine.look s = (m.engine.setWait s (.returned (.error (.cancelled .caller))),
        [.returned s (.error (.cancelled .caller))]) := by
      simp [Engine.look, hc, hw, Wait.isWaiting, Engine.answer?, hempty, htoken]
    obtain ⟨rfl, rfl⟩ := Prod.mk.inj (hlook.symm.trans hs)
    have hlive : (m.setPoll s (some .token)).engine.tokenCancelled s = true := by
      simp [setPoll, Engine.tokenCancelled, hc, htoken]
    exact ⟨_, hbegan.moved (.looked (.tokenCancelled (hself _) hlive)), rfl, rfl, hback _⟩
  · have hlive : (m.setPoll s (some .token)).engine.tokenCancelled s = false := by
      simp [setPoll, Engine.tokenCancelled, hc, htoken]
    have htold := hbegan.moved (.looked (.tokenLive (hself _) hlive))
    rw [List.append_nil] at htold
    have hnext : ((m.setPoll s (some .token)).setPoll s (some .scope)).polls s = some .scope :=
      Function.update_self ..
    have hback' : Function.update
        ((m.setPoll s (some .token)).setPoll s (some .scope)).polls s none = m.polls := by
      rw [setPoll, setPoll, Function.update_idem]
      exact hback _
    cases hscope : m.engine.cancelled with
    | true =>
      have hlook : m.engine.look s = (m.engine.setWait s (.returned (.error (.cancelled .engine))),
          [.returned s (.error (.cancelled .engine))]) := by
        simp [Engine.look, hc, hw, Wait.isWaiting, Engine.answer?, hempty, htoken, hscope]
      obtain ⟨rfl, rfl⟩ := Prod.mk.inj (hlook.symm.trans hs)
      exact ⟨_, htold.moved (.looked (.scopeCancelled hnext hscope)), rfl, rfl, hback'⟩
    | false =>
      have hlook : m.engine.look s = (m.engine, []) := by
        simp [Engine.look, hc, hw, Wait.isWaiting, Engine.answer?, hempty, htoken, hscope]
      obtain ⟨rfl, rfl⟩ := Prod.mk.inj (hlook.symm.trans hs)
      exact ⟨_, htold.moved (.looked (.scopeLive hnext hscope)), rfl, rfl, hback'⟩

/-- A poll whose looks follow each other at once is a look of the engine. -/
theorem Polls.look (h : Polls o m events) (hp : m.polls s = none)
    (hs : m.engine.look s = (e', new)) :
    ∃ m', Polls o m' (events ++ new) ∧ m'.engine = e' ∧ m'.sendings = m.sendings ∧
      m'.polls = m.polls := by
  have hsame : m.engine.look s = (m.engine, []) → ∃ m', Polls o m' (events ++ new) ∧
      m'.engine = e' ∧ m'.sendings = m.sendings ∧ m'.polls = m.polls := by
    intro hlook
    obtain ⟨rfl, rfl⟩ := Prod.mk.inj (hlook.symm.trans hs)
    rw [List.append_nil]
    exact ⟨m, h, rfl, rfl, rfl⟩
  cases hc : m.engine.calls[s]? with
  | none => exact hsame (by simp [Engine.look, hc])
  | some call =>
    cases hw : call.wait with
    | waiting =>
      have hwait : waitAt? m.engine.calls s = some .waiting := by
        rw [waitAt?, hc, Option.map_some, hw]
      by_cases hempty : call.slot = .empty
      · exact h.look_empty hp hc hw hempty hs
      · have hslot : slotAt? m.engine.calls s ≠ some .empty := by
          rw [slotAt?, hc, Option.map_some]
          simpa using hempty
        have hstep : m.engine.step? (.look s) = some (e', new) := congrArg some hs
        exact ⟨_, h.moved (.looked (.read hp hwait hslot hstep)), rfl, rfl, rfl⟩
    | _ => exact hsame (by simp [Engine.look, hc, hw, Wait.isWaiting])

/-- Results that follow each other at once are sent like any others. -/
theorem Polls.sendAll {results : List (Ticket × Except Error β)} (h : Polls o m events)
    (hm : m.sendings = before ++ x :: after) (hx : x.rest = results) :
    ∃ x' : Sending β, x'.rest = [] ∧
      x'.late = x.late + results.countP (fun p => isGone m.engine.calls p.1) ∧
      Polls o
        { m with
          engine := { m.engine with calls := fillAll results m.engine.calls }
          sendings := before ++ x' :: after }
        (events ++ settlements results m.engine.calls) := by
  induction results generalizing m events x with
  | nil =>
    refine ⟨x, hx, rfl, ?_⟩
    rw [← hm]
    simpa [fillAll, settlements] using h
  | cons p results ih =>
    obtain ⟨s, result⟩ := p
    have hsent := h.moved (.sent hm hx)
    rw [Engine.settle_eq] at hsent
    obtain ⟨x', hrest, hlate, hpolls⟩ := ih hsent rfl rfl
    refine ⟨x', hrest, ?_, ?_⟩
    · have hfirst := missed_settlements (α := α) [(s, result)] m.engine.calls
      simp only [hlate, hfirst, Engine.withCalls, isGone_fillAll, List.countP_cons, List.countP_nil]
      omega
    · rw [settlements_cons, ← List.append_assoc]
      simp only [Engine.withCalls, settlements_fillAll] at hpolls
      exact hpolls

/-- What settles a batch in one step puts its notes first, and then the results into their slots. -/
theorem settleAll_of_step (hs : Engine.Step e a e' new) (hb : e.Sound events)
    (hne : settled new ≠ []) :
    e' = (e'.withCalls e.calls e.counters.unobserved).withCalls (fillAll (settled new) e.calls)
      (e.counters.unobserved + (settled new).countP fun p => isGone e.calls p.1) ∧
    new = (new.filter fun event => event.settled?.isNone) ++ settlements (settled new) e.calls := by
  have hfilter : ∀ results : List (Ticket × Except Error β),
      (settlements results e.calls : List (Event α β)).filter (fun event => event.settled?.isNone) =
        [] := by
    intro results
    refine List.filter_eq_nil_iff.mpr fun event hevent => ?_
    obtain ⟨p, -, hp⟩ := List.mem_filterMap.mp hevent
    obtain ⟨w, -, rfl⟩ := Option.map_eq_some_iff.mp hp
    simp [Event.settled?]
  cases hs with
  | aside ha => exact absurd ha.settled hne
  | @resumed t b ht hq =>
    have hu : e.Unsettled b := .inr ⟨t, ht, Stage.batch?_of_queued hq⟩
    cases hres : e.askForWorker b with
    | mk e' new =>
      have hask := Engine.askForWorker_asked e b
      rw [hres] at hask hne
      cases hask with
      | abandoned =>
        rw [Engine.settled_abandon hb hu, Engine.settleAll_eq]
        refine ⟨rfl, ?_⟩
        rw [List.filter_cons_of_pos (by rfl), hfilter]
        rfl
      | waiting => exact absurd rfl hne
      | granted => exact absurd rfl hne
  | @finished t b outcome ht hr =>
    have hu : e.Unsettled b := .inr ⟨t, ht, Stage.batch?_of_running hr⟩
    rw [Engine.finish_eq, Engine.settleAll_eq, Engine.settled_finish hb hu]
    refine ⟨rfl, ?_⟩
    have hnotes : (outcome.notes b : List (Event α β)).filter
        (fun event => event.settled?.isNone) = outcome.notes b := by
      refine List.filter_eq_self.mpr fun event hevent => ?_
      rw [List.filterMap_eq_nil_iff.mp (Engine.settled_notes outcome b) event hevent]
      rfl
    rw [List.filter_append, hnotes, hfilter, List.append_nil]
  | _ => exact absurd rfl hne

/-- A batch may be settled in one go. -/
theorem Polls.settleAtOnce (h : Polls o m events) (hnone : m.sendings = [])
    (ha : a.isOfCaller = false) (hs : m.engine.step? a = some (e', new))
    (hne : settled new ≠ []) : Polls o { m with engine := e' } (events ++ new) := by
  obtain ⟨hengine, hnew⟩ := settleAll_of_step (Engine.step_of_step? hs) h.tracked.sound hne
  have hend := h.moved (.ended ha hs hne)
  obtain ⟨x, hrest, hlate, hsent⟩ := hend.sendAll (show _ = [] ++ _ :: [] by rw [hnone]) rfl
  have hrecorded := hsent.moved (.recorded (show _ = [] ++ _ :: [] from rfl) hrest)
  rw [hlate] at hrecorded
  have hlast : Polls o
      { m with
        engine := (e'.withCalls m.engine.calls m.engine.counters.unobserved).withCalls
          (fillAll (settled new) m.engine.calls)
          (m.engine.counters.unobserved + (settled new).countP fun p => isGone m.engine.calls p.1) }
      (events ++ ((new.filter fun event => event.settled?.isNone) ++
        settlements (settled new) m.engine.calls)) := by
    simpa [Engine.withCalls, hnone] using hrecorded
  rw [← hnew, ← hengine] at hlast
  exact hlast

/-- Every history of the engine in which no caller leaves is one in which polls and sendings go
through at once. -/
theorem polls_of_reaches (h : e.Reaches o actions events) (hstay : ∀ s, .leave s ∉ actions) :
    ∃ m, Polls o m events ∧ m.engine = e ∧ m.sendings = [] ∧ m.polls = fun _ => none := by
  induction h with
  | built hb => exact ⟨_, .built hb, rfl, rfl, rfl⟩
  | @step actions e events a e' new hr hs ih =>
    obtain ⟨m, hm, rfl, hsendings, hpolls⟩ := ih fun s hs => hstay s (List.mem_append_left _ hs)
    by_cases ha : a.isOfCaller = false
    · by_cases hnew : settled new = []
      · exact ⟨_, hm.moved (.acted ha hs hnew), rfl, hsendings, hpolls⟩
      · exact ⟨_, hm.settleAtOnce hsendings ha hs hnew, rfl, hsendings, hpolls⟩
    · cases a with
      | look s =>
        obtain ⟨m', hm', hengine, hsendings', hpolls'⟩ :=
          hm.look (s := s) (by rw [hpolls]) (Option.some.inj hs)
        exact ⟨m', hm', hengine, hsendings'.trans hsendings, hpolls'.trans hpolls⟩
      | leave s => exact absurd (List.mem_append_right _ List.mem_cons_self) (hstay s)
      | _ => exact absurd rfl ha

end Polling

end Coalesce
