import Coalesce.Proofs.Answers
import Coalesce.Proofs.Cancellation
import Coalesce.Proofs.Dropping

/-! # Results and those who wait for them

A result that is put into a slot meets a caller that waits for it, or one that has stopped waiting,
and then it is counted as unobserved. A caller that stays until it is told something has stopped
waiting only if it was told of a cancellation. So every result that was put into a slot has been
read by its caller, will be when the caller next looks, or is counted, as long as no result is sent
in the middle of a poll; `Polling` and `LateResults` are about those that are. -/
namespace Coalesce
variable {α β : Type}

def Wait.isCancelled : Wait β → Bool
  | .returned (.error (.cancelled _)) => true
  | _ => false

def hasCancelled (calls : List (Call β)) (ticket : Ticket) : Bool :=
  (waitAt? calls ticket).any Wait.isCancelled

def isAwaited (calls : List (Call β)) (ticket : Ticket) : Bool :=
  (waitAt? calls ticket).any Wait.isWaiting

/-- A slot that a result is put into after its caller has stopped waiting. -/
def Event.missed? : Event α β → Option Ticket
  | .settled slot _ false => some slot
  | _ => none

def missed (events : List (Event α β)) : List Ticket := events.filterMap Event.missed?

@[simp] theorem missed_append (events new : List (Event α β)) :
    missed (events ++ new) = missed events ++ missed new := List.filterMap_append

/-- What a caller is told after the `past`, if by then its slot has been filled. -/
def Event.collected? (past : List (Event α β)) : Event α β → Option (Ticket × Except Error β)
  | .returned ticket result =>
    if ticket ∈ (Coalesce.settled past).map Prod.fst then some (ticket, result) else none
  | _ => none

def collectedAfter : List (Event α β) → List (Event α β) → List (Ticket × Except Error β)
  | _, [] => []
  | past, event :: rest =>
    (event.collected? past).toList ++ collectedAfter (past ++ [event]) rest

def collected (events : List (Event α β)) : List (Ticket × Except Error β) :=
  collectedAfter [] events

theorem collectedAfter_append (past events new : List (Event α β)) :
    collectedAfter past (events ++ new) =
      collectedAfter past events ++ collectedAfter (past ++ events) new := by
  induction events generalizing past with
  | nil => simp [collectedAfter]
  | cons event rest ih => simp [collectedAfter, ih]

theorem collected_append (events new : List (Event α β)) :
    collected (events ++ new) = collected events ++ collectedAfter events new :=
  collectedAfter_append [] events new

theorem collectedAfter_eq_nil {past new : List (Event α β)}
    (h : ∀ s result, .returned s result ∉ new) : collectedAfter past new = [] := by
  induction new generalizing past with
  | nil => rfl
  | cons event rest ih =>
    have hrest : ∀ s result, .returned s result ∉ rest :=
      fun s result hm => h s result (List.mem_cons_of_mem _ hm)
    have hfirst : event.collected? past = none := by
      cases event with
      | returned s result => exact absurd List.mem_cons_self (h s result)
      | _ => rfl
    rw [collectedAfter, hfirst, ih hrest]
    rfl

theorem collectedAfter_returned (past : List (Event α β)) (s : Ticket) (result : Except Error β) :
    collectedAfter past [.returned s result] =
      if s ∈ (settled past).map Prod.fst then [(s, result)] else [] := by
  by_cases h : s ∈ (settled past).map Prod.fst <;>
    simp only [collectedAfter, Event.collected?, h, if_true, if_false] <;> rfl

theorem waitAt?_append {calls : List (Call β)} {s : Ticket} {w : Wait β}
    (h : waitAt? calls s = some w) (more : List (Call β)) :
    waitAt? (calls ++ more) s = some w := by
  obtain ⟨call, hc, -⟩ := Option.map_eq_some_iff.mp h
  rw [waitAt?, List.getElem?_append_left (List.getElem?_eq_some_iff.mp hc).1]
  exact h

theorem waitAt?_concat {calls : List (Call β)} {call : Call β} {s : Ticket} {w : Wait β}
    (h : waitAt? (calls ++ [call]) s = some w) :
    waitAt? calls s = some w ∨ s = calls.length ∧ w = call.wait := by
  rcases Nat.lt_trichotomy s calls.length with hlt | rfl | hgt
  · rw [waitAt?, List.getElem?_append_left hlt] at h
    exact .inl h
  · rw [waitAt?, List.getElem?_concat_length, Option.map_some, Option.some.injEq] at h
    exact .inr ⟨rfl, h.symm⟩
  · have hnone : (calls ++ [call])[s]? = none := by
      rw [List.getElem?_eq_none_iff, List.length_append, List.length_singleton]
      omega
    rw [waitAt?, hnone] at h
    cases h

theorem exists_waitAt? {calls : List (Call β)} {s : Ticket} (h : s < calls.length) :
    ∃ w, waitAt? calls s = some w := by
  refine ⟨calls[s].wait, ?_⟩
  rw [waitAt?, List.getElem?_eq_getElem h, Option.map_some]

theorem isAwaited_of_some {calls : List (Call β)} {s : Ticket} {w : Wait β}
    (h : waitAt? calls s = some w) : isAwaited calls s = w.isWaiting := by
  rw [isAwaited, h, Option.any_some]

theorem isGone_of_some {calls : List (Call β)} {s : Ticket} {w : Wait β}
    (h : waitAt? calls s = some w) : isGone calls s = !w.isWaiting := by
  rw [isGone, h, Option.any_some]

theorem length_eq_awaited_add_gone {results : List (Ticket × Except Error β)}
    {calls : List (Call β)} (h : ∀ p ∈ results, p.1 < calls.length) :
    results.length = results.countP (fun p => isAwaited calls p.1) +
      results.countP (fun p => isGone calls p.1) := by
  rw [List.length_eq_countP_add_countP (fun p => isAwaited calls p.1)]
  refine congrArg _ (List.countP_congr fun p hp => ?_)
  obtain ⟨w, hw⟩ := exists_waitAt? (h p hp)
  rw [isAwaited_of_some hw, isGone_of_some hw]
  cases w.isWaiting <;> simp

/-- A caller stops waiting, and no other. -/
theorem countP_awaited_eq_succ {results : List (Ticket × Except Error β)} {s : Ticket}
    {calls calls' : List (Call β)} (nd : (results.map Prod.fst).Nodup)
    (hs : s ∈ results.map Prod.fst) (hbefore : isAwaited calls s = true)
    (hafter : isAwaited calls' s = false)
    (hothers : ∀ s', s' ≠ s → isAwaited calls' s' = isAwaited calls s') :
    results.countP (fun p => isAwaited calls p.1) =
      results.countP (fun p => isAwaited calls' p.1) + 1 := by
  induction results with
  | nil => cases hs
  | cons p results ih =>
    obtain ⟨hp, nd⟩ := List.nodup_cons.mp nd
    rw [List.countP_cons, List.countP_cons]
    by_cases heq : p.1 = s
    · have hrest : results.countP (fun q => isAwaited calls' q.1) =
          results.countP (fun q => isAwaited calls q.1) := by
        refine List.countP_congr fun q hq => ?_
        have hne : q.1 ≠ s := by
          rintro rfl
          exact hp (heq ▸ List.mem_map_of_mem hq)
        rw [hothers q.1 hne]
      simp [heq, hbefore, hafter, hrest]
    · have hin : s ∈ results.map Prod.fst :=
        (List.mem_cons.mp hs).resolve_left fun h => heq h.symm
      rw [ih nd hin, hothers p.1 heq]
      omega

theorem missed_settlements (results : List (Ticket × Except Error β)) (calls : List (Call β)) :
    (missed (settlements results calls : List (Event α β))).length =
      results.countP fun p => isGone calls p.1 := by
  induction results with
  | nil => rfl
  | cons p results ih =>
    rw [settlements_cons, missed_append, List.length_append, ih, List.countP_cons, Nat.add_comm]
    refine congrArg _ ?_
    cases hw : waitAt? calls p.1 with
    | none => simp [settlements, missed, isGone, hw]
    | some w => cases h : w.isWaiting <;> simp [settlements, missed, isGone, hw, h, Event.missed?]

theorem missed_notes (outcome : Outcome β) (b : Batch α) :
    missed (outcome.notes b : List (Event α β)) = [] := by
  cases outcome with
  | results items =>
    by_cases h : items.length = b.slots.length <;> simp [Outcome.notes, h, missed, Event.missed?]
  | panic payload => rfl

namespace Engine
variable {e e' e'' : Engine α β} {events new later : List (Event α β)}
  {actions more : List (Action α β)} {a : Action α β} {t : BatchTask α} {b : Batch α} {o : Options}
  {s : Ticket} {result : Except Error β}

theorem waitAt?_setWait_self {call : Call β} (h : e.calls[s]? = some call) (wait : Wait β) :
    waitAt? (e.setWait s wait).calls s = some wait := by
  rw [setWait, waitAt?, List.getElem?_modify_eq, h]
  rfl

theorem waitAt?_setWait_of_ne {s' : Ticket} (h : s' ≠ s) (wait : Wait β) :
    waitAt? (e.setWait s wait).calls s' = waitAt? e.calls s' := by
  rw [setWait, waitAt?, List.getElem?_modify_ne _ _ (Ne.symm h), waitAt?]

/-- All that a step can be to slots and to those who wait for them. -/
inductive Regards (e : Engine α β) (a : Action α β) (e' : Engine α β) (new : List (Event α β)) :
    Prop where
  | still : settled new = [] → missed new = [] → (∀ s result, .returned s result ∉ new) →
      e'.counters.unobserved = e.counters.unobserved →
      (∀ s, waitAt? e'.calls s = waitAt? e.calls s) →
      (∀ s, slotAt? e'.calls s = some .empty → slotAt? e.calls s = some .empty) →
      Regards e a e' new
  | called {token : String} : settled new = [] → missed new = [] →
      (∀ s result, .returned s result ∉ new) →
      e'.counters.unobserved = e.counters.unobserved →
      e'.calls = e.calls ++ [{ token := token }] → Regards e a e' new
  | told {s : Ticket} {call : Call β} {result : Except Error β} : a = .look s →
      e.calls[s]? = some call → call.wait.isWaiting = true → e.answer? call = some result →
      e' = e.setWait s (.returned result) → new = [.returned s result] → Regards e a e' new
  | left {s : Ticket} : a = .leave s → e' = e.setWait s .left → new = [] → Regards e a e' new
  | filled {b : Batch α} {results : List (Ticket × Except Error β)} : e.Unsettled b →
      results.map Prod.fst = b.slots → settled new = results →
      (missed new).length = results.countP (fun p => isGone e.calls p.1) →
      (∀ s result, .returned s result ∉ new) → e'.calls = fillAll results e.calls →
      e'.counters.unobserved =
        e.counters.unobserved + results.countP (fun p => isGone e.calls p.1) → Regards e a e' new

theorem Regards.released (hcalls : e'.calls = releaseAll b.slots e.calls)
    (hcount : e'.counters.unobserved = e.counters.unobserved) (hsettled : settled new = [])
    (hmissed : missed new = []) (hreturned : ∀ s result, .returned s result ∉ new) :
    Regards e a e' new := by
  refine .still hsettled hmissed hreturned hcount (fun s => ?_) (fun s hs => ?_)
  · rw [hcalls, waitAt?_releaseAll]
  · rw [hcalls] at hs
    rcases slotAt?_of_releaseAll hs with hs | ⟨-, heq⟩
    · exact hs
    · cases heq

theorem Aside.regards (h : Aside e a e' new) : Regards e a e' new := by
  cases h with
  | answered hc hw hanswer => exact .told rfl hc hw hanswer rfl rfl
  | left => exact .left rfl rfl rfl
  | _ => exact .still rfl rfl (by simp) rfl (fun s => rfl) fun s hs => hs

theorem asked_regards (hask : Asked e b e' new) (hb : Sound e events) (ht : t ∈ e.tasks)
    (hq : t.stage = .queued b) : Regards e a e' new := by
  have hu : e.Unsettled b := .inr ⟨t, ht, Stage.batch?_of_queued hq⟩
  have hreturned : ∀ s result, .returned s result ∉ new := fun s result hm =>
    absurd (hask.isAnswer hm) (by simp [Event.isAnswer])
  cases hask with
  | abandoned =>
    rw [settleAll_eq]
    exact .filled hu (map_fst_refusals b.slots) (settled_abandon hb hu)
      (missed_settlements (refusals b.slots) e.calls) hreturned rfl rfl
  | waiting => exact .still rfl rfl (by simp) rfl (fun s => rfl) fun s hs => hs
  | granted => exact .still rfl rfl (by simp) rfl (fun s => rfl) fun s hs => hs

theorem step_regards (hs : Step e a e' new) (hb : Sound e events) : Regards e a e' new := by
  cases hs with
  | aside ha => exact ha.regards
  | joined => exact .called rfl rfl (by simp [joinBatch]) rfl rfl
  | opened => exact .called rfl rfl (by simp [openBatch]) rfl rfl
  | @flushed t wakeAt shutdown now b reason =>
    have hcount : (e.takeBatch t b reason).counters.unobserved = e.counters.unobserved := by
      cases reason <;> rfl
    exact .still rfl rfl (by simp) hcount (fun s => rfl) fun s hs => hs
  | resumed ht hq => exact asked_regards (askForWorker_asked ..) hb ht hq
  | @finished t b outcome ht hr =>
    have hu : e.Unsettled b := .inr ⟨t, ht, Stage.batch?_of_running hr⟩
    rw [finish_eq, settleAll_eq]
    refine .filled hu (map_fst_shares outcome e.name b.slots) (settled_finish hb hu outcome e.name)
      ?_ ?_ rfl rfl
    · rw [missed_append, missed_notes, List.nil_append]
      exact missed_settlements ..
    · intro s result hm
      rcases List.mem_append.mp hm with hm | hm
      · exact absurd (isAnswer_notes hm) (by simp [Event.isAnswer])
      · exact absurd (isAnswer_settlements hm) (by simp [Event.isAnswer])
  | orphaned => exact .released rfl rfl rfl rfl (by simp)
  | dropped => exact .released rfl rfl rfl rfl (by simp)
  | aborted => exact .released rfl rfl rfl rfl (by simp)
  | _ => exact .still rfl rfl (by simp) rfl (fun s => rfl) fun s hs => hs

/-- The count of unobserved results is that of the slots whose results came too late. -/
theorem Reaches.unobserved_eq (h : Reaches o actions e events) :
    e.counters.unobserved = (missed events).length := by
  induction h with
  | built hb =>
    obtain ⟨-, rfl⟩ := build_eq_ok hb
    rfl
  | step hr hs ih =>
    rw [missed_append, List.length_append, ← ih]
    cases step_regards (step_of_step? hs) hr.sound with
    | still _ hmissed _ hcount => simp [hmissed, hcount]
    | called _ hmissed _ hcount => simp [hmissed, hcount]
    | told _ _ _ _ he hnew =>
      rw [he, hnew]
      rfl
    | left _ he hnew =>
      rw [he, hnew]
      rfl
    | filled _ _ _ hmissed _ _ hcount => rw [hmissed, hcount]

theorem waitAt?_of_look {call : Call β} (h : e.calls[s]? = some call)
    (hw : call.wait.isWaiting = true) : waitAt? e.calls s = some .waiting := by
  rw [waitAt?, h, Option.map_some]
  cases hc : call.wait with
  | waiting => rfl
  | _ =>
    rw [hc] at hw
    cases hw

/-- What is in an empty slot's stead, a caller is told of a cancellation. -/
theorem cancelled_of_answer? {call : Call β} (h : e.answer? call = some result)
    (hempty : call.slot = .empty) : ∃ scope, result = .error (.cancelled scope) := by
  by_cases htoken : call.token ∈ e.cancelledTokens
  · exact ⟨.caller, by simpa [answer?, hempty, htoken, eq_comm] using h⟩
  · have hboth : e.cancelled = true ∧ .error (.cancelled .engine) = result := by
      simpa [answer?, hempty, htoken] using h
    exact ⟨.engine, hboth.2.symm⟩

structure Observed (e : Engine α β) (events : List (Event α β)) : Prop where
  staying : ∀ s, waitAt? e.calls s ≠ some .left
  early : ∀ s result, slotAt? e.calls s = some .empty →
    waitAt? e.calls s = some (.returned result) → ∃ scope, result = .error (.cancelled scope)
  heard : ∀ p ∈ collected events,
    p ∈ settled events ∧ waitAt? e.calls p.1 = some (.returned p.2)
  once : ((collected events).map Prod.fst).Nodup
  balance : (settled events).length = (collected events).length +
    (settled events).countP (fun p => isAwaited e.calls p.1) + e.counters.unobserved

namespace Observed

/-- The call of a batch that is still to be settled has come back only with a cancellation. -/
theorem isGone_eq (h : Observed e events) (hempty : slotAt? e.calls s = some .empty) :
    isGone e.calls s = hasCancelled e.calls s := by
  obtain ⟨w, hw⟩ := exists_waitAt? (lt_of_slotAt? hempty)
  rw [isGone_of_some hw, hasCancelled, hw, Option.any_some]
  cases w with
  | waiting => rfl
  | returned result =>
    obtain ⟨scope, rfl⟩ := h.early s result hempty hw
    rfl
  | left => exact absurd hw (h.staying s)

/-- No result is put into a slot and no caller told anything. -/
theorem quiet (h : Observed e events) (hsettled : settled new = [])
    (hreturned : ∀ s result, .returned s result ∉ new)
    (hcount : e'.counters.unobserved = e.counters.unobserved)
    (hstaying : ∀ s, waitAt? e'.calls s ≠ some .left)
    (hearly : ∀ s result, slotAt? e'.calls s = some .empty →
      waitAt? e'.calls s = some (.returned result) →
      slotAt? e.calls s = some .empty ∧ waitAt? e.calls s = some (.returned result))
    (hwaits : ∀ p ∈ settled events, waitAt? e'.calls p.1 = waitAt? e.calls p.1) :
    Observed e' (events ++ new) := by
  have hcollected : collected (events ++ new) = collected events := by
    rw [collected_append, collectedAfter_eq_nil hreturned, List.append_nil]
  have hsame : settled (events ++ new) = settled events := by simp [hsettled]
  constructor
  case staying => exact hstaying
  case early =>
    intro s result hempty hw
    obtain ⟨hempty, hw⟩ := hearly s result hempty hw
    exact h.early s result hempty hw
  case heard =>
    rw [hcollected, hsame]
    intro p hp
    obtain ⟨hm, hw⟩ := h.heard p hp
    exact ⟨hm, (hwaits p hm).trans hw⟩
  case once =>
    rw [hcollected]
    exact h.once
  case balance =>
    have hawaited : (settled events).countP (fun p => isAwaited e'.calls p.1) =
        (settled events).countP (fun p => isAwaited e.calls p.1) :=
      List.countP_congr fun p hp => by rw [isAwaited, hwaits p hp, isAwaited]
    rw [hcollected, hsame, hawaited, hcount]
    exact h.balance

theorem called (h : Observed e events) (hd : Delivered e events) (hsettled : settled new = [])
    (hreturned : ∀ s result, .returned s result ∉ new)
    (hcount : e'.counters.unobserved = e.counters.unobserved) {token : String}
    (hcalls : e'.calls = e.calls ++ [{ token := token }]) : Observed e' (events ++ new) := by
  refine h.quiet hsettled hreturned hcount ?_ ?_ ?_
  · intro s hs
    rw [hcalls] at hs
    rcases waitAt?_concat hs with hs | ⟨-, heq⟩
    · exact h.staying s hs
    · cases heq
  · intro s result hempty hw
    rw [hcalls] at hempty hw
    rcases waitAt?_concat hw with hw | ⟨-, heq⟩
    · refine ⟨?_, hw⟩
      rcases slotAt?_concat hempty with hempty | ⟨rfl, -⟩
      · exact hempty
      · simp [waitAt?] at hw
    · cases heq
  · intro p hp
    obtain ⟨w, hw⟩ := exists_waitAt? (lt_of_slotAt? (hd.filled p hp))
    rw [hcalls, waitAt?_append hw, hw]

/-- A caller that is told something once its slot is filled is told what is there. -/
theorem content_eq (hd : Delivered e events) {call : Call β} (hc : e.calls[s]? = some call)
    (hanswer : e.answer? call = some result) (hs : s ∈ (settled events).map Prod.fst) :
    (s, result) ∈ settled events := by
  obtain ⟨p, hp, rfl⟩ := List.mem_map.mp hs
  have hslot := hd.filled p hp
  rw [slotAt?, hc, Option.map_some, Option.some.injEq] at hslot
  have hcontent : p.2 = result := by simpa [answer?, hslot] using hanswer
  rw [← hcontent]
  exact hp

theorem collected_concat (events : List (Event α β)) (s : Ticket) (result : Except Error β) :
    collected (events ++ [.returned s result]) =
      collected events ++ if s ∈ (settled events).map Prod.fst then [(s, result)] else [] := by
  rw [collected_append, collectedAfter_returned]

theorem heard_told (h : Observed e events) (hd : Delivered e events) {call : Call β}
    (hc : e.calls[s]? = some call) (hw : waitAt? e.calls s = some .waiting)
    (hanswer : e.answer? call = some result) :
    ∀ p ∈ collected (events ++ [.returned s result]), p ∈ settled events ∧
      waitAt? (e.setWait s (.returned result)).calls p.1 = some (.returned p.2) := by
  rw [collected_concat]
  intro p hp
  rcases List.mem_append.mp hp with hp | hp
  · obtain ⟨hm, hw'⟩ := h.heard p hp
    have hne : p.1 ≠ s := by
      rintro rfl
      rw [hw] at hw'
      cases hw'
    exact ⟨hm, (waitAt?_setWait_of_ne hne _).trans hw'⟩
  · by_cases hin : s ∈ (settled events).map Prod.fst
    · rw [if_pos hin, List.mem_singleton] at hp
      subst hp
      exact ⟨content_eq hd hc hanswer hin, waitAt?_setWait_self hc _⟩
    · rw [if_neg hin] at hp
      cases hp

theorem once_told (h : Observed e events) (hw : waitAt? e.calls s = some .waiting)
    (result : Except Error β) :
    ((collected (events ++ [.returned s result])).map Prod.fst).Nodup := by
  rw [collected_concat]
  by_cases hin : s ∈ (settled events).map Prod.fst
  · rw [if_pos hin, List.map_append]
    refine List.nodup_append.mpr ⟨h.once, List.nodup_singleton _, ?_⟩
    rintro s₁ hs₁ s₂ hs₂ rfl
    obtain ⟨p, hp, rfl⟩ := List.mem_map.mp hs₁
    obtain ⟨-, hw'⟩ := h.heard p hp
    rw [List.mem_singleton.mp hs₂, hw] at hw'
    cases hw'
  · rw [if_neg hin, List.append_nil]
    exact h.once

theorem balance_told (h : Observed e events) (hd : Delivered e events) {call : Call β}
    (hc : e.calls[s]? = some call) (hw : waitAt? e.calls s = some .waiting)
    (result : Except Error β) :
    (settled events).length = (collected (events ++ [.returned s result])).length +
      (settled events).countP
        (fun p => isAwaited (e.setWait s (.returned result)).calls p.1) +
      e.counters.unobserved := by
  have hbefore : isAwaited e.calls s = true := isAwaited_of_some hw
  have hafter : isAwaited (e.setWait s (.returned result)).calls s = false :=
    isAwaited_of_some (waitAt?_setWait_self hc _)
  have hothers : ∀ s', s' ≠ s →
      isAwaited (e.setWait s (.returned result)).calls s' = isAwaited e.calls s' := by
    intro s' hne
    rw [isAwaited, waitAt?_setWait_of_ne hne, isAwaited]
  have hold := h.balance
  rw [collected_concat]
  by_cases hin : s ∈ (settled events).map Prod.fst
  · have hone := countP_awaited_eq_succ hd.once hin hbefore hafter hothers
    rw [if_pos hin, List.length_append, List.length_singleton]
    omega
  · have hnone : (settled events).countP
        (fun p => isAwaited (e.setWait s (.returned result)).calls p.1) =
        (settled events).countP (fun p => isAwaited e.calls p.1) := by
      refine List.countP_congr fun p hp => ?_
      have hne : p.1 ≠ s := fun heq => hin (heq ▸ List.mem_map_of_mem hp)
      rw [hothers p.1 hne]
    rw [if_neg hin, List.append_nil, hnone]
    exact hold

theorem told (h : Observed e events) (hd : Delivered e events) {call : Call β}
    (hc : e.calls[s]? = some call) (hw : call.wait.isWaiting = true)
    (hanswer : e.answer? call = some result) :
    Observed (e.setWait s (.returned result)) (events ++ [.returned s result]) := by
  have hwaiting := waitAt?_of_look hc hw
  have hself := waitAt?_setWait_self hc (.returned result)
  have hsame : settled (events ++ [.returned s result]) = settled events := by
    simp [settled, Event.settled?]
  constructor
  case staying =>
    intro s' hs'
    by_cases heq : s' = s
    · rw [heq, hself] at hs'
      cases hs'
    · rw [waitAt?_setWait_of_ne heq] at hs'
      exact h.staying s' hs'
  case early =>
    intro s' result' hempty hw'
    rw [slotAt?_setWait] at hempty
    by_cases heq : s' = s
    · subst heq
      rw [hself] at hw'
      cases hw'
      rw [slotAt?, hc, Option.map_some, Option.some.injEq] at hempty
      exact cancelled_of_answer? hanswer hempty
    · rw [waitAt?_setWait_of_ne heq] at hw'
      exact h.early s' result' hempty hw'
  case heard =>
    rw [hsame]
    exact h.heard_told hd hc hwaiting hanswer
  case once => exact h.once_told hwaiting result
  case balance =>
    rw [hsame]
    exact h.balance_told hd hc hwaiting result

/-- A batch is settled: whoever has not stopped waiting is still to read its result. -/
theorem settle (h : Observed e events) (hb : Sound e events) (hu : e.Unsettled b)
    {results : List (Ticket × Except Error β)} (hr : results.map Prod.fst = b.slots)
    (hsettled : settled new = results) (hreturned : ∀ s result, .returned s result ∉ new)
    (hcalls : e'.calls = fillAll results e.calls)
    (hcount : e'.counters.unobserved =
      e.counters.unobserved + results.countP (fun p => isGone e.calls p.1)) :
    Observed e' (events ++ new) := by
  have hwaits : ∀ s, waitAt? e'.calls s = waitAt? e.calls s := by
    intro s
    rw [hcalls, waitAt?_fillAll]
  have hcollected : collected (events ++ new) = collected events := by
    rw [collected_append, collectedAfter_eq_nil hreturned, List.append_nil]
  constructor
  case staying =>
    intro s
    rw [hwaits]
    exact h.staying s
  case early =>
    intro s result hempty hw
    rw [hwaits] at hw
    rw [hcalls] at hempty
    rcases slotAt?_of_fillAll hempty with hempty | ⟨_, heq⟩
    · exact h.early s result hempty hw
    · cases heq
  case heard =>
    rw [hcollected]
    intro p hp
    obtain ⟨hm, hw⟩ := h.heard p hp
    exact ⟨settled_mono events new hm, (hwaits p.1).trans hw⟩
  case once =>
    rw [hcollected]
    exact h.once
  case balance =>
    have hlt : ∀ p ∈ results, p.1 < e.calls.length := by
      intro p hp
      refine hb.slot_lt (hb.mem_everyBatch hu) ?_
      rw [← hr]
      exact List.mem_map_of_mem hp
    have hawaited : ∀ s, isAwaited e'.calls s = isAwaited e.calls s := by
      intro s
      rw [isAwaited, hwaits, isAwaited]
    have hold := h.balance
    have hnew := length_eq_awaited_add_gone hlt
    simp only [settled_append, List.length_append, List.countP_append, hcollected, hsettled,
      hawaited, hcount]
    omega

end Observed

theorem step_observed (hs : Step e a e' new) (hstay : ∀ s, a ≠ .leave s) (hb : Sound e events)
    (hd : Delivered e events) (h : Observed e events) : Observed e' (events ++ new) := by
  cases step_regards hs hb with
  | still hsettled _ hreturned hcount hwaits hempties =>
    refine h.quiet hsettled hreturned hcount (fun s => ?_) (fun s result hempty hw => ?_)
      fun p _ => hwaits p.1
    · rw [hwaits]
      exact h.staying s
    · exact ⟨hempties s hempty, (hwaits s).symm.trans hw⟩
  | called hsettled _ hreturned hcount hcalls =>
    exact h.called hd hsettled hreturned hcount hcalls
  | told _ hc hw hanswer he hnew =>
    rw [he, hnew]
    exact h.told hd hc hw hanswer
  | left ha => exact absurd ha (hstay _)
  | filled hu hr hsettled _ hreturned hcalls hcount =>
    exact h.settle hb hu hr hsettled hreturned hcalls hcount

theorem Reaches.observed (h : Reaches o actions e events) (hstay : ∀ s, .leave s ∉ actions) :
    Observed e events := by
  induction h with
  | built hb =>
    obtain ⟨-, rfl⟩ := build_eq_ok hb
    constructor <;> simp [fresh, waitAt?, slotAt?, collected, collectedAfter, settled]
  | step hr hs ih =>
    refine step_observed (step_of_step? hs) (fun s ha => ?_) hr.sound hr.delivered
      (ih fun s hm => hstay s (List.mem_append_left _ hm))
    exact hstay s (List.mem_append_right _ (List.mem_singleton.mpr ha.symm))

theorem Regards.waiting (h : Regards e a e' new) (hw : waitAt? e.calls s = some .waiting)
    (hlook : a ≠ .look s) (hleave : a ≠ .leave s) : waitAt? e'.calls s = some .waiting := by
  cases h with
  | still _ _ _ _ hwaits => rw [hwaits, hw]
  | called _ _ _ _ hcalls =>
    rw [hcalls]
    exact waitAt?_append hw _
  | told ha _ _ _ he =>
    have hne : s ≠ _ := fun heq => hlook (heq ▸ ha)
    rw [he, waitAt?_setWait_of_ne hne, hw]
  | left ha he =>
    have hne : s ≠ _ := fun heq => hleave (heq ▸ ha)
    rw [he, waitAt?_setWait_of_ne hne, hw]
  | filled _ _ _ _ _ hcalls => rw [hcalls, waitAt?_fillAll, hw]

theorem Reaches.stays_waiting (h : Reaches o actions e events)
    (hw : waitAt? e.calls s = some .waiting) (hrun : e.run? more = some (e', later))
    (hlook : .look s ∉ more) (hleave : .leave s ∉ more) : waitAt? e'.calls s = some .waiting := by
  suffices hlast : .look s ∉ more ∧ .leave s ∉ more → waitAt? e'.calls s = some .waiting from
    hlast ⟨hlook, hleave⟩
  refine h.run_induction
    (P := fun before m _ => .look s ∉ before ∧ .leave s ∉ before →
      waitAt? m.calls s = some .waiting) (fun _ => hw) ?_ hrun
  intro before m sofar a m' first hm hp hs hne
  simp only [List.mem_append, List.mem_singleton, not_or] at hne
  obtain ⟨⟨hlook, hlast⟩, hleave, hlast'⟩ := hne
  exact (step_regards (step_of_step? hs) hm.sound).waiting (hp ⟨hlook, hleave⟩)
    (Ne.symm hlast) (Ne.symm hlast')

theorem look_filled (hf : slotAt? e.calls s = some (.filled result))
    (hw : waitAt? e.calls s = some .waiting) :
    e.step? (.look s) = some (e.setWait s (.returned result), [.returned s result]) := by
  obtain ⟨call, hc, hslot⟩ := Option.map_eq_some_iff.mp hf
  rw [waitAt?, hc, Option.map_some, Option.some.injEq] at hw
  simp [step?, look, hc, hw, Wait.isWaiting, answer?, hslot]

/-- The batch `b` is settled with the `results`: the requests counted as unobserved are those whose
call has come back with a cancellation, and every other call, whatever happens before it next looks,
comes back with what was put into its slot. -/
structure Settles (e : Engine α β) (b : Batch α) (results : List (Ticket × Except Error β))
    (e' : Engine α β) (new : List (Event α β)) : Prop where
  given : settled new = results
  slots : results.map Prod.fst = b.slots
  counted : e'.counters.unobserved = e.counters.unobserved + b.slots.countP (hasCancelled e.calls)
  answered : ∀ p ∈ results, hasCancelled e.calls p.1 = false →
    ∀ more e'' later, e'.run? more = some (e'', later) → .look p.1 ∉ more → .leave p.1 ∉ more →
      e''.step? (.look p.1) = some (e''.setWait p.1 (.returned p.2), [.returned p.1 p.2])

theorem Reaches.settles_of_filled (h : Reaches o actions e events) (ho : Observed e events)
    (hs : e.step? a = some (e', new)) (hu : e.Unsettled b)
    {results : List (Ticket × Except Error β)} (hr : results.map Prod.fst = b.slots)
    (hsettled : settled new = results) (hcalls : e'.calls = fillAll results e.calls)
    (hcount : e'.counters.unobserved =
      e.counters.unobserved + results.countP (fun p => isGone e.calls p.1)) :
    Settles e b results e' new := by
  have hempty := h.delivered.empty b hu
  have hgone : ∀ s ∈ b.slots, isGone e.calls s = hasCancelled e.calls s :=
    fun s hs => ho.isGone_eq (hempty s hs)
  have hin : ∀ p ∈ results, p.1 ∈ b.slots := fun p hp => hr ▸ List.mem_map_of_mem hp
  refine ⟨hsettled, hr, ?_, ?_⟩
  · have hcongr : results.countP (fun p => isGone e.calls p.1) =
        b.slots.countP (hasCancelled e.calls) := by
      rw [← hr, List.countP_map]
      exact List.countP_congr fun p hp => by rw [hgone p.1 (hin p hp), Function.comp_apply]
    rw [hcount, hcongr]
  · intro p hp hstill more e'' later hrun hlook hleave
    have hnext := h.step hs
    obtain ⟨w, hw⟩ := exists_waitAt? (lt_of_slotAt? (hempty p.1 (hin p hp)))
    have hwaiting : w.isWaiting = true := by
      have hnot := hgone p.1 (hin p hp)
      rw [hstill, isGone_of_some hw] at hnot
      simpa using hnot
    have hbefore : waitAt? e'.calls p.1 = some .waiting := by
      rw [hcalls, waitAt?_fillAll, hw]
      cases w with
      | waiting => rfl
      | _ => cases hwaiting
    have hmem : p ∈ settled ((events ++ new) ++ later) := by
      rw [settled_append, settled_append, hsettled]
      exact List.mem_append_left _ (List.mem_append_right _ hp)
    exact look_filled ((hnext.run hrun).delivered.filled p hmem)
      (hnext.stays_waiting hbefore hrun hlook hleave)

/-- How the results of an engine are observed. An execution that ends, in whichever way, settles its
batch with what is due at each position, and a batch given up is settled with refusals; no other
step counts a result as unobserved. Every request that was settled has been told what is in its
slot, is still to look, or is counted. -/
structure CountsUnobserved (o : Options) (e : Engine α β) (events : List (Event α β)) : Prop where
  executed : ∀ t ∈ e.tasks, ∀ b, t.stage = .running b → ∀ outcome, ∃ e' new,
    e.step? (.finish t.id outcome) = some (e', new) ∧
    Settles e b (b.slots.zip (outcome.shares o.name b.slots.length)) e' new
  abandoned : ∀ t ∈ e.tasks, ∀ b, t.stage = .queued b → e.cancelled = true → ∃ e' new,
    e.step? (.resume t.id) = some (e', new) ∧ Settles e b (refusals b.slots) e' new
  otherwise : ∀ a e' new, e.step? a = some (e', new) →
    (∃ b results, Settles e b results e' new) ∨
      settled new = [] ∧ e'.counters.unobserved = e.counters.unobserved
  distinct : ((settled events).map Prod.fst).Nodup
  read : ∀ p ∈ collected events, p ∈ settled events
  once : ((collected events).map Prod.fst).Nodup
  balance : (settled events).length = (collected events).length +
    (settled events).countP (fun p => isAwaited e.calls p.1) + e.counters.unobserved

theorem Reaches.settles (h : Reaches o actions e events) (ho : Observed e events)
    (hs : e.step? a = some (e', new)) :
    (∃ b results, Settles e b results e' new) ∨
      settled new = [] ∧ e'.counters.unobserved = e.counters.unobserved := by
  cases step_regards (step_of_step? hs) h.sound with
  | still hsettled _ _ hcount => exact .inr ⟨hsettled, hcount⟩
  | called hsettled _ _ hcount => exact .inr ⟨hsettled, hcount⟩
  | told _ _ _ _ he hnew =>
    rw [he, hnew]
    exact .inr ⟨rfl, rfl⟩
  | left _ he hnew =>
    rw [he, hnew]
    exact .inr ⟨rfl, rfl⟩
  | @filled b results hu hr hsettled _ _ hcalls hcount =>
    exact .inl ⟨b, results, h.settles_of_filled ho hs hu hr hsettled hcalls hcount⟩

theorem Reaches.settles_finish (h : Reaches o actions e events) (ho : Observed e events)
    (ht : t ∈ e.tasks) (hr : t.stage = .running b) (outcome : Outcome β) : ∃ e' new,
    e.step? (.finish t.id outcome) = some (e', new) ∧
    Settles e b (b.slots.zip (outcome.shares o.name b.slots.length)) e' new := by
  have hname : e.name = o.name := h.settings.name
  have hu : e.Unsettled b := .inr ⟨t, ht, Stage.batch?_of_running hr⟩
  have hs : e.step? (.finish t.id outcome) = some (e.finish b outcome) := by
    simp [step?, h.sound.task?_of_mem ht, hr]
  rw [finish_eq, settleAll_eq] at hs
  refine ⟨_, _, hs, ?_⟩
  rw [← hname]
  exact h.settles_of_filled ho hs hu (map_fst_shares outcome e.name b.slots)
    (settled_finish h.sound hu outcome e.name) rfl rfl

theorem Reaches.settles_resume (h : Reaches o actions e events) (ho : Observed e events)
    (ht : t ∈ e.tasks) (hq : t.stage = .queued b) (hc : e.cancelled = true) : ∃ e' new,
    e.step? (.resume t.id) = some (e', new) ∧ Settles e b (refusals b.slots) e' new := by
  have hu : e.Unsettled b := .inr ⟨t, ht, Stage.batch?_of_queued hq⟩
  have hs : e.step? (.resume t.id) = some (e.askForWorker b) := by
    simp [step?, h.sound.task?_of_mem ht, hq]
  rw [askForWorker_of_cancelled hc, settleAll_eq] at hs
  exact ⟨_, _, hs, h.settles_of_filled ho hs hu (map_fst_refusals b.slots)
    (settled_abandon h.sound hu) rfl rfl⟩

/-- As long as every caller stays until it is told something, and every poll is one step,
unobserved results are counted exactly. -/
theorem unobserved_counted (h : Reaches o actions e events) (hstay : ∀ s, .leave s ∉ actions) :
    CountsUnobserved o e events := by
  have ho := h.observed hstay
  constructor
  case executed => exact fun t ht b hr outcome => h.settles_finish ho ht hr outcome
  case abandoned => exact fun t ht b hq hc => h.settles_resume ho ht hq hc
  case otherwise => exact fun a e' new hs => h.settles ho hs
  case distinct => exact h.delivered.once
  case read => exact fun p hp => (ho.heard p hp).1
  case once => exact ho.once
  case balance => exact ho.balance

end Engine

end Coalesce
