import Coalesce.Proofs.Executions

/-! # Which requests are accepted

A request is accepted if it is submitted before the engine is cancelled, and refused after. -/
namespace Coalesce.Engine
variable {α β : Type} {e e' : Engine α β} {events new : List (Event α β)}
  {actions : List (Action α β)} {a : Action α β}

def submissions : List (Action α β) → List (Key × α)
  | [] => []
  | .submit _ key request _ :: rest => (key, request) :: submissions rest
  | .cancel :: _ => []
  | _ :: rest => submissions rest

theorem submissions_append_of_mem (h : .cancel ∈ actions) (more : List (Action α β)) :
    submissions (actions ++ more) = submissions actions := by
  induction actions with
  | nil => cases h
  | cons a actions ih =>
    cases a with
    | cancel => rfl
    | submit token key request now =>
      have hrest := (List.mem_cons.mp h).resolve_left (by simp)
      exact congrArg ((key, request) :: ·) (ih hrest)
    | _ => exact ih ((List.mem_cons.mp h).resolve_left (by simp))

theorem submissions_append_of_notMem (h : .cancel ∉ actions) (more : List (Action α β)) :
    submissions (actions ++ more) = submissions actions ++ submissions more := by
  induction actions with
  | nil => rfl
  | cons a actions ih =>
    obtain ⟨ha, hrest⟩ := not_or.mp fun hor => h (List.mem_cons.mpr hor)
    cases a with
    | cancel => exact absurd rfl ha
    | submit token key request now => exact congrArg ((key, request) :: ·) (ih hrest)
    | _ => exact ih hrest

/-- A step accepts what it submits, unless the engine is cancelled. -/
theorem step_accepted (hs : Step e a e' new) :
    (accepted new).map Prod.snd = if e.cancelled then [] else submissions [a] := by
  cases hs with
  | aside ha =>
    rw [show accepted new = [] from overlooks_accepted.aside ha]
    cases ha with
    | rejected hc => simp [hc]
    | _ => simp [submissions]
  | joined hc => simp [hc, submissions, joinBatch, accepted, Event.accepted?]
  | opened hc => simp [hc, submissions, openBatch, accepted, Event.accepted?]
  | resumed =>
    rw [show accepted _ = [] from overlooks_accepted.asked rfl rfl (askForWorker_asked ..)]
    simp [submissions]
  | finished =>
    rw [finish_eq, show accepted _ = [] from overlooks_accepted.ending ..]
    simp [submissions]
  | _ => simp [submissions, accepted, Event.accepted?]

theorem step_cancelled (hs : Step e a e' new) :
    e'.cancelled = true ↔ e.cancelled = true ∨ a = .cancel := by
  cases hs with
  | aside ha => cases ha <;> simp [setWait]
  | resumed =>
    rw [(askForWorker_asked ..).cancelled]
    simp
  | finished =>
    rw [finish_eq, settleAll_eq]
    simp [withCalls, endExecution, countEnd, giveBack, endTask]
  | _ =>
    simp [joinBatch, openBatch, setStage, endTask, takeBatch, removeBatch, release, endExecution,
      countEnd, giveBack]

namespace Reaches
variable {o : Options}

theorem cancelled_iff (h : Reaches o actions e events) :
    e.cancelled = true ↔ .cancel ∈ actions := by
  induction h with
  | built hb =>
    obtain ⟨-, rfl⟩ := build_eq_ok hb
    simp [fresh]
  | @step actions e events a e' new hr hs ih =>
    rw [step_cancelled (step_of_step? hs), ih, List.mem_append, List.mem_singleton]
    exact or_congr_right eq_comm

/-- A cancellation stays. -/
theorem cancelled_of_append (h : Reaches o actions e events) (hc : e.cancelled = true)
    {more : List (Action α β)} (h' : Reaches o (actions ++ more) e' new) : e'.cancelled = true :=
  h'.cancelled_iff.mpr (List.mem_append_left _ (h.cancelled_iff.mp hc))

theorem accepted_eq (h : Reaches o actions e events) :
    (accepted events).map Prod.snd = submissions actions := by
  induction h with
  | built hb => rfl
  | @step actions e events a e' new hr hs ih =>
    rw [accepted_append, List.map_append, ih, step_accepted (step_of_step? hs)]
    by_cases hc : e.cancelled = true
    · rw [if_pos hc, List.append_nil, submissions_append_of_mem (hr.cancelled_iff.mp hc)]
    · rw [if_neg hc, submissions_append_of_notMem fun hm => hc (hr.cancelled_iff.mpr hm)]

end Reaches

end Coalesce.Engine
