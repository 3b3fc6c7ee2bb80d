import Coalesce.Proofs.Prompt
import Mathlib.Data.List.TakeWhile

/-! # Readings of the clock

Steps take readings of one clock, which does not go back. A request arrives at the reading of its
submission, so the two instants that a pending batch keeps are the arrivals of its first and of its
latest request. Timers may be late here by any time, and tasks may be dropped. -/
namespace Coalesce

def Action.reading? {α β : Type} : Action α β → Option Instant
  | .submit _ _ _ now => some now
  | .wake _ _ now => some now
  | _ => none

def Action.isCancel {α β : Type} : Action α β → Bool
  | .cancel => true
  | _ => false

theorem Action.isCancel_iff {α β : Type} {a : Action α β} : a.isCancel = true ↔ a = .cancel := by
  cases a <;> simp [isCancel]

namespace Engine
variable {α β : Type} {e e' : Engine α β} {events new : List (Event α β)}
  {actions : List (Action α β)} {a : Action α β} {b : Batch α} {now instant : Instant}
  {s : Ticket} {o : Options}

def readings (actions : List (Action α β)) : List Instant := actions.filterMap Action.reading?

def arrivals (actions : List (Action α β)) : List (Instant × Key × α) :=
  timeline (actions.takeWhile fun a => !a.isCancel)

def arrivalAt? (actions : List (Action α β)) (s : Ticket) : Option Instant :=
  (arrivals actions)[s]?.map Prod.fst

@[simp] theorem readings_append (actions more : List (Action α β)) :
    readings (actions ++ more) = readings actions ++ readings more := List.filterMap_append

theorem map_snd_arrivals (actions : List (Action α β)) :
    (arrivals actions).map Prod.snd = submissions actions := by
  induction actions with
  | nil => rfl
  | cons a actions ih =>
    cases a with
    | cancel => rfl
    | submit token key request now => exact congrArg ((key, request) :: ·) ih
    | _ => exact ih

theorem Reaches.length_arrivals (h : Reaches o actions e events) :
    (arrivals actions).length = e.calls.length := by
  have hsubmitted : (arrivals actions).length = (accepted events).length := by
    rw [← List.length_map Prod.snd, map_snd_arrivals, ← h.accepted_eq, List.length_map]
  rw [hsubmitted, ← List.length_map Prod.fst, h.conserved.tickets, List.length_range]

theorem arrivals_concat_of_cancelled (h : .cancel ∈ actions) (a : Action α β) :
    arrivals (actions ++ [a]) = arrivals actions := by
  have hstops : (actions.takeWhile fun a => !a.isCancel).length ≠ actions.length := by
    intro hlen
    have hall := List.takeWhile_eq_self_iff.mp ((List.takeWhile_prefix _).eq_of_length hlen)
    simpa [Action.isCancel] using hall .cancel h
  rw [arrivals, List.takeWhile_append, if_neg hstops, arrivals]

theorem arrivals_concat_of_open (h : .cancel ∉ actions) (a : Action α β) :
    arrivals (actions ++ [a]) = arrivals actions ++ timeline [a] := by
  have hopen : ∀ c ∈ actions, (!c.isCancel) = true := by
    intro c hc
    cases hcancel : c.isCancel with
    | false => rfl
    | true => exact absurd (Action.isCancel_iff.mp hcancel ▸ hc) h
  have hlast : timeline ([a].takeWhile fun a => !a.isCancel) = timeline [a] := by
    cases a <;> rfl
  rw [arrivals, List.takeWhile_append_of_pos hopen, timeline_append, hlast, arrivals,
    List.takeWhile_eq_self_iff.mpr hopen]

theorem arrivalAt?_concat (hs : arrivalAt? actions s = some instant) (a : Action α β) :
    arrivalAt? (actions ++ [a]) s = some instant := by
  by_cases hc : .cancel ∈ actions
  · rw [arrivalAt?, arrivals_concat_of_cancelled hc]
    exact hs
  · obtain ⟨entry, hentry, hinstant⟩ := Option.map_eq_some_iff.mp hs
    have hlt : s < (arrivals actions).length := (List.getElem?_eq_some_iff.mp hentry).1
    rw [arrivalAt?, arrivals_concat_of_open hc, List.getElem?_append_left hlt]
    exact hs

/-- A request that is accepted arrives with the next ticket. -/
theorem Reaches.arrivalAt?_submit (h : Reaches o actions e events) (hc : e.cancelled = false)
    (token : String) (key : Key) (request : α) (now : Instant) :
    arrivalAt? (actions ++ [.submit token key request now]) e.calls.length = some now := by
  have hopen : .cancel ∉ actions := by
    rw [← h.cancelled_iff, hc]
    simp
  rw [arrivalAt?, arrivals_concat_of_open hopen, ← h.length_arrivals]
  simp [timeline, Action.submission?]

theorem mem_readings_of_arrivalAt? (hs : arrivalAt? actions s = some instant) :
    instant ∈ readings actions := by
  obtain ⟨entry, hentry, rfl⟩ := Option.map_eq_some_iff.mp hs
  obtain ⟨c, hc, hsubmission⟩ := List.mem_filterMap.mp (List.mem_of_getElem? hentry)
  have hread : c.reading? = some entry.1 := by
    cases c with
    | submit token key request now =>
      have heq : (now, key, request) = entry := Option.some.inj hsubmission
      rw [← heq]
      rfl
    | _ => cases hsubmission
  exact List.mem_filterMap.mpr ⟨c, (List.takeWhile_sublist _).subset hc, hread⟩

structure Dated (actions : List (Action α β)) (b : Batch α) : Prop where
  first : ∃ s ∈ b.slots.head?, arrivalAt? actions s = some b.createdAt
  latest : ∃ s ∈ b.slots.getLast?, arrivalAt? actions s = some b.lastActivity
  between : ∀ s ∈ b.slots, ∃ instant, arrivalAt? actions s = some instant ∧
    b.createdAt ≤ instant ∧ instant ≤ b.lastActivity

namespace Dated

theorem mono (h : Dated actions b) (a : Action α β) : Dated (actions ++ [a]) b := by
  obtain ⟨first, hfirst, hcreated⟩ := h.first
  obtain ⟨last, hlast, hactive⟩ := h.latest
  refine ⟨⟨first, hfirst, arrivalAt?_concat hcreated a⟩,
    ⟨last, hlast, arrivalAt?_concat hactive a⟩, fun s hs => ?_⟩
  obtain ⟨instant, harrived, hbounds⟩ := h.between s hs
  exact ⟨instant, arrivalAt?_concat harrived a, hbounds⟩

theorem mem_readings (h : Dated actions b) : b.lastActivity ∈ readings actions := by
  obtain ⟨s, -, harrived⟩ := h.latest
  exact mem_readings_of_arrivalAt? harrived

theorem created_le (h : Dated actions b) : b.createdAt ≤ b.lastActivity := by
  obtain ⟨s, hs, -⟩ := h.first
  obtain ⟨instant, -, hlow, hhigh⟩ := h.between s (List.mem_of_mem_head? hs)
  exact hlow.trans hhigh

/-- A request joins, later than the latest one. -/
theorem push (h : Dated actions b) (hpast : b.lastActivity ≤ now)
    (hs : arrivalAt? actions s = some now) (request : α) :
    Dated actions (b.push request s now) := by
  obtain ⟨first, hfirst, hcreated⟩ := h.first
  constructor
  case first =>
    refine ⟨first, ?_, hcreated⟩
    rw [Batch.push, List.head?_append, Option.mem_def.mp hfirst]
    rfl
  case latest =>
    refine ⟨s, ?_, hs⟩
    rw [Batch.push, List.getLast?_concat]
    rfl
  case between =>
    intro r hr
    rcases List.mem_append.mp hr with hr | hr
    · obtain ⟨instant, harrived, hlow, hhigh⟩ := h.between r hr
      exact ⟨instant, harrived, hlow, hhigh.trans hpast⟩
    · rw [List.mem_singleton.mp hr]
      exact ⟨now, hs, h.created_le.trans hpast, le_rfl⟩

theorem opened (hs : arrivalAt? actions s = some now) (id : Nat) (key : Key) (request : α) :
    Dated actions ((Batch.empty id key now).push request s now) := by
  refine ⟨⟨s, rfl, hs⟩, ⟨s, rfl, hs⟩, fun r hr => ?_⟩
  rw [List.mem_singleton.mp hr]
  exact ⟨now, hs, le_rfl, le_rfl⟩

end Dated

/-- Where a pending batch comes from in a step: it was there, and perhaps a request joined it, or a
request opened it. -/
inductive Entered (e : Engine α β) (a : Action α β) : Key × Batch α → Prop where
  | kept {p : Key × Batch α} : p ∈ e.registry → Entered e a p
  | joined {token : String} {key : Key} {request : α} {now : Instant} {b : Batch α} :
      e.cancelled = false → a = .submit token key request now → (key, b) ∈ e.registry →
      Entered e a (key, b.push request e.calls.length now)
  | opened {token : String} {key : Key} {request : α} {now : Instant} :
      e.cancelled = false → a = .submit token key request now →
      Entered e a (key, (Batch.empty e.nextId key now).push request e.calls.length now)

theorem step_entered (hs : Step e a e' new) : ∀ p ∈ e'.registry, Entered e a p := by
  intro p hp
  cases hs with
  | aside ha =>
    rw [ha.sameBooks.registry] at hp
    exact .kept hp
  | @joined token key request now b hc =>
    obtain ⟨q, hq, rfl⟩ := List.mem_map.mp hp
    by_cases hk : q.1 = key
    · rw [if_pos hk, hk]
      exact .joined hc rfl (hk ▸ hq)
    · rw [if_neg hk]
      exact .kept hq
  | opened hc =>
    rcases List.mem_append.mp hp with hp | hp
    · exact .kept hp
    · rw [List.mem_singleton.mp hp]
      exact .opened hc rfl
  | flushed => exact .kept (List.mem_of_mem_filter hp)
  | resumed =>
    rw [(askForWorker_asked ..).registry] at hp
    exact .kept hp
  | finished =>
    rw [finish_eq, settleAll_eq] at hp
    exact .kept hp
  | orphaned => exact .kept (List.mem_of_mem_filter hp)
  | _ => exact .kept hp

theorem pairwise_readings (hm : (readings (actions ++ [a])).Pairwise (· ≤ ·)) :
    (readings actions).Pairwise (· ≤ ·) ∧
      ∀ earlier ∈ readings actions, ∀ later ∈ a.reading?, earlier ≤ later := by
  rw [readings_append, List.pairwise_append] at hm
  obtain ⟨hbefore, -, hlast⟩ := hm
  refine ⟨hbefore, fun earlier he later hl => hlast earlier he later ?_⟩
  exact List.mem_filterMap.mpr ⟨a, List.mem_cons_self, hl⟩

/-- While the clock does not go back, the instants of every pending batch are those at which its
requests arrived. -/
theorem Reaches.dated (h : Reaches o actions e events)
    (hm : (readings actions).Pairwise (· ≤ ·)) : ∀ p ∈ e.registry, Dated actions p.2 := by
  induction h with
  | built hb =>
    obtain ⟨-, rfl⟩ := build_eq_ok hb
    intro p hp
    cases hp
  | @step actions e events a e' new hr hs ih =>
    obtain ⟨hbefore, hpast⟩ := pairwise_readings hm
    have hdated := ih hbefore
    intro p hp
    cases step_entered (step_of_step? hs) p hp with
    | kept hp => exact (hdated p hp).mono a
    | @joined token key request now b hc ha hb =>
      have hle := hpast _ (hdated _ hb).mem_readings now (by rw [ha]; rfl)
      subst ha
      exact ((hdated _ hb).mono _).push hle (hr.arrivalAt?_submit hc ..) request
    | opened hc ha =>
      subst ha
      exact .opened (hr.arrivalAt?_submit hc ..) ..

/-- A reading that comes next is no earlier than the latest request of any pending batch. -/
theorem Reaches.lastActivity_le (h : Reaches o actions e events)
    (hm : (readings (actions ++ [a])).Pairwise (· ≤ ·)) (hread : a.reading? = some now) :
    ∀ p ∈ e.registry, p.2.lastActivity ≤ now := by
  obtain ⟨hbefore, hpast⟩ := pairwise_readings hm
  intro p hp
  exact hpast _ (h.dated hbefore p hp).mem_readings now hread

end Engine

end Coalesce
