import Coalesce.Proofs.Polling
import Mathlib.Logic.Relation

/-! # What becomes of a result while polls go on

A result that is sent to a call which waits, with no poll under way, is what the next poll of the
call finds first, whatever is cancelled in between. One that is sent to a call which has come back
with a cancellation is counted. One that is sent while a poll is under way may be lost: the poll has
looked at the slot already, and may yet come back with a cancellation. -/
namespace Coalesce.Polling
variable {α β : Type} {m m' : Polling α β} {e' : Engine α β} {events new : List (Event α β)}
  {b : Batch α} {t : BatchTask α} {s : Ticket} {o : Options} {result : Except Error β}

/-- The calls that were waiting when their slots were filled, and have come back with a
cancellation. -/
def lost (m : Polling α β) (events : List (Event α β)) : List Ticket :=
  ((settled events).map Prod.fst).filter fun s =>
    s ∈ m.refused.map Prod.fst ∧ s ∉ missed events

/-- The call has read what is in its slot, or does so when it next looks. -/
def Reads (m : Polling α β) (s : Ticket) : Prop :=
  s ∈ m.read ∨ waitAt? m.engine.calls s = some .waiting ∧ m.polls s = none

def Leads (m m' : Polling α β) : Prop :=
  Relation.ReflTransGen (fun m m' => ∃ new, Move m m' new) m m'

theorem Look.same (h : Look m s m' new) : m'.sendings = m.sendings ∧ settled new = [] ∧
    missed new = [] ∧ m'.engine.counters = m.engine.counters := by
  cases h with
  | read _ hw hslot hs =>
    obtain ⟨call, result, -, -, rfl, rfl⟩ := look_found hw hslot hs
    exact ⟨rfl, rfl, rfl, rfl⟩
  | _ => exact ⟨rfl, rfl, rfl, rfl⟩

theorem Look.other {s' : Ticket} (h : Look m s' m' new) (hne : s ≠ s') :
    waitAt? m'.engine.calls s = waitAt? m.engine.calls s ∧ m'.polls s = m.polls s := by
  cases h with
  | read _ hw hslot hs =>
    obtain ⟨call, result, -, -, rfl, rfl⟩ := look_found hw hslot hs
    exact ⟨Engine.waitAt?_setWait_of_ne hne _, rfl⟩
  | began => exact ⟨rfl, polls_setPoll hne⟩
  | tokenLive => exact ⟨rfl, polls_setPoll hne⟩
  | scopeLive => exact ⟨rfl, polls_setPoll hne⟩
  | tokenCancelled => exact ⟨Engine.waitAt?_setWait_of_ne hne _, polls_setPoll hne⟩
  | scopeCancelled => exact ⟨Engine.waitAt?_setWait_of_ne hne _, polls_setPoll hne⟩

/-- A call comes back with a cancellation in a poll that is under way. -/
theorem Move.refused (hm : Move m m' new) (hs : s ∈ m'.refused.map Prod.fst) :
    s ∈ m.refused.map Prod.fst ∨ m.polls s ≠ none ∧ settled new = [] := by
  have hrefuse : ∀ {s'} {scope : CancelScope}, s ∈ (m.refuse s' scope).refused.map Prod.fst →
      m.polls s' ≠ none → s ∈ m.refused.map Prod.fst ∨ m.polls s ≠ none := by
    intro s' scope hs hpoll
    rw [refuse, List.map_append, List.mem_append, List.map_singleton, List.mem_singleton] at hs
    refine hs.imp_right fun heq => ?_
    rw [heq]
    exact hpoll
  cases hm with
  | looked hl =>
    cases hl with
    | tokenCancelled hp => exact (hrefuse hs (by simp [hp])).imp_right fun h => ⟨h, rfl⟩
    | scopeCancelled hp => exact (hrefuse hs (by simp [hp])).imp_right fun h => ⟨h, rfl⟩
    | _ => exact .inl hs
  | _ => exact .inl hs

/-- A call whose slot has been filled while none of its polls was under way reads what is there. -/
theorem Tracked.answered (h : Tracked o m events) (hs : (s, result) ∈ settled events)
    (hw : waitAt? m.engine.calls s = some .waiting) (hp : m.polls s = none) :
    (∃ m' new, Look m s m' new) ∧
      ∀ m' new, Look m s m' new → new = [.returned s result] ∧ s ∈ m'.read := by
  have hslot : slotAt? m.engine.calls s = some (.filled result) := h.delivered.filled _ hs
  have hlook := Engine.look_filled hslot hw
  have hfull : slotAt? m.engine.calls s ≠ some .empty := by simp [hslot]
  refine ⟨⟨_, _, .read hp hw hfull hlook⟩, fun m' new hl => ?_⟩
  cases hl with
  | read _ _ _ hstep =>
    rw [hlook] at hstep
    cases hstep
    exact ⟨rfl, List.mem_append_right _ List.mem_cons_self⟩
  | began _ _ hempty => exact absurd hempty hfull
  | tokenLive hpoll => simp [hp] at hpoll
  | tokenCancelled hpoll => simp [hp] at hpoll
  | scopeLive hpoll => simp [hp] at hpoll
  | scopeCancelled hpoll => simp [hp] at hpoll

theorem countP_eq_add {γ : Type} {l : List γ} {p q r : γ → Prop} [DecidablePred p]
    [DecidablePred q] [DecidablePred r] (hor : ∀ a ∈ l, p a ↔ q a ∨ r a)
    (hand : ∀ a ∈ l, q a → ¬r a) :
    l.countP (p ·) = l.countP (q ·) + l.countP (r ·) := by
  induction l with
  | nil => rfl
  | cons a l ih =>
    have hrest := ih (fun b hb => hor b (List.mem_cons_of_mem _ hb))
      fun b hb => hand b (List.mem_cons_of_mem _ hb)
    have hfirst := hor a List.mem_cons_self
    have hnot := hand a List.mem_cons_self
    simp only [List.countP_cons, hrest, decide_eq_true_eq]
    by_cases hq : q a
    · simp [hq, hfirst.mpr (.inl hq), hnot hq]
      omega
    · by_cases hr : r a
      · simp [hq, hr, hfirst.mpr (.inr hr)]
        omega
      · have hp : ¬p a := fun hp => (hfirst.mp hp).elim hq hr
        simp [hq, hr, hp]

theorem countP_missed (h : ((settled events).map Prod.fst).Nodup) :
    ((settled events).map Prod.fst).countP (· ∈ missed events) = (missed events).length := by
  have hsub := missed_sublist events
  rw [List.countP_eq_length_filter]
  refine List.Perm.length_eq ?_
  refine (List.perm_ext_iff_of_nodup (h.filter _) (h.sublist hsub)).mpr fun s => ?_
  rw [List.mem_filter, decide_eq_true_eq, and_iff_right_of_imp fun hs => hsub.subset hs]

/-- Every result that was sent has been read, is still to be looked at, came too late, or was
lost. -/
theorem Tracked.balance (h : Tracked o m events) :
    (settled events).length = (settled events).countP (fun p => p.1 ∈ m.read) +
      (settled events).countP (fun p => isAwaited m.engine.calls p.1) +
      (missed events).length + (m.lost events).length := by
  have hlt : ∀ p ∈ settled events, p.1 < m.engine.calls.length := fun p hp =>
    Engine.lt_of_slotAt? (h.delivered.filled p hp)
  have hgone : (settled events).countP (fun p => isGone m.engine.calls p.1) =
      (settled events).countP (fun p => p.1 ∈ m.read) +
        (settled events).countP (fun p => p.1 ∈ m.refused.map Prod.fst) := by
    have hsplit := countP_eq_add (l := settled events) (fun p _ => h.heard.gone p.1)
      fun p _ hread => h.heard.apart p.1 hread
    simpa using hsplit
  have hrefused : (settled events).countP (fun p => p.1 ∈ m.refused.map Prod.fst) =
      (missed events).length + (m.lost events).length := by
    have hsplit := countP_eq_add (l := (settled events).map Prod.fst)
      (p := (· ∈ m.refused.map Prod.fst)) (q := (· ∈ missed events))
      (r := fun s => s ∈ m.refused.map Prod.fst ∧ s ∉ missed events)
      (fun s _ => by
        have hlate := h.heard.late s
        tauto) (fun s _ hs hr => hr.2 hs)
    rw [countP_missed h.delivered.once] at hsplit
    rw [lost, ← List.countP_eq_length_filter, ← hsplit, List.countP_map]
    rfl
  rw [length_eq_awaited_add_gone hlt, hgone, hrefused]
  omega

/-- The engine may run on by itself while it settles nothing. -/
theorem Polls.run (h : Polls o m events) (actions : List (Action α β))
    (ha : ∀ a ∈ actions, a.isOfCaller = false) (hs : m.engine.run? actions = some (e', new))
    (hnew : settled new = []) : Polls o { m with engine := e' } (events ++ new) := by
  induction actions generalizing m events new with
  | nil =>
    cases hs
    rw [List.append_nil]
    exact h
  | cons a rest ih =>
    obtain ⟨ha, hrest⟩ := List.forall_mem_cons.mp ha
    simp only [Engine.run?, Option.bind_eq_bind, Option.bind_eq_some_iff, Option.some.injEq,
      Prod.exists, Prod.mk.injEq, Option.pure_def] at hs
    obtain ⟨e₁, first, hfirst, e₂, others, hothers, rfl, rfl⟩ := hs
    rw [settled_append, List.append_eq_nil_iff] at hnew
    rw [← List.append_assoc]
    have hnext : Polls o { m with engine := e₁ } (events ++ first) :=
      h.moved (.acted ha hfirst hnew.1)
    have hrun := ih hnext hrest hothers hnew.2
    exact hrun

end Coalesce.Polling
