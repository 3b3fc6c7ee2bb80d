import Coalesce.Batch
import Mathlib.Data.List.Basic
import Mathlib.Order.MinMax
import Mathlib.Order.WithBot

/-! # The grouping that batching comes down to

The submissions under one key are read from left to right. A group takes them in until an idle
timeout after the latest, or a longest time after the first, whichever comes first; what is
submitted at that instant or later opens another group. A timeout that reaches no instant never
comes. -/
namespace Coalesce
variable {α : Type} {idle max : Duration}

namespace Instant

instance : LinearOrder Instant where
  le_refl _ := Nat.le_refl _
  le_trans _ _ _ := Nat.le_trans
  lt_iff_le_not_ge t u := by rw [lt_def, le_def, le_def]; omega
  le_antisymm := fun ⟨_⟩ ⟨_⟩ h h' => congrArg Instant.mk (Nat.le_antisymm h h')
  le_total _ _ := Nat.le_total ..
  toDecidableLE := inferInstance

def after (t : Instant) (d : Duration) : WithTop Instant := t.add? d

theorem le_after (t : Instant) (d : Duration) : (t : WithTop Instant) ≤ t.after d := by
  cases h : t.after d with
  | top => exact le_top
  | coe u =>
    have hu := (add?_eq_some_iff.mp h).2
    rw [WithTop.coe_le_coe, le_def]
    omega

theorem after_mono {t u : Instant} (h : t ≤ u) (d : Duration) : t.after d ≤ u.after d := by
  rw [le_def] at h
  cases hu : u.after d with
  | top => exact le_top
  | coe v =>
    obtain ⟨hlt, hv⟩ := add?_eq_some_iff.mp hu
    have ht : t.after d = ((⟨t.nanos + d.nanos⟩ : Instant) : WithTop Instant) :=
      add?_eq_some_iff.mpr ⟨by omega, rfl⟩
    rw [ht, WithTop.coe_le_coe, le_def, hv]
    exact Nat.add_le_add_right h d.nanos

end Instant

/-- Requests that are to be in one batch, with the instants of the first and the latest. -/
structure Group (α : Type) where
  first : Instant
  latest : Instant
  requests : List α

namespace Group

def start (s : Instant × α) : Group α := ⟨s.1, s.1, [s.2]⟩

def join (g : Group α) (s : Instant × α) : Group α :=
  { g with latest := s.1, requests := g.requests ++ [s.2] }

def closes (idle max : Duration) (g : Group α) : WithTop Instant :=
  min (g.latest.after idle) (g.first.after max)

def reason (idle max : Duration) (g : Group α) : FlushReason :=
  if g.latest.after idle < g.first.after max then .idle else .maxTimeout

/-- A submission joins the latest group, or comes too late and opens another. -/
def place (idle max : Duration) (groups : List (Group α)) (s : Instant × α) : List (Group α) :=
  match groups.getLast? with
  | some g => if s.1 < g.closes idle max then groups.dropLast ++ [g.join s] else groups ++ [start s]
  | none => [start s]

def all (idle max : Duration) (submitted : List (Instant × α)) : List (Group α) :=
  submitted.foldl (place idle max) []

theorem place_concat (groups : List (Group α)) (g : Group α) (s : Instant × α) :
    place idle max (groups ++ [g]) s =
      if s.1 < g.closes idle max then groups ++ [g.join s] else groups ++ [g, start s] := by
  simp [place]

/-- What comes too late for every group opens another. -/
theorem place_of_closed {groups : List (Group α)} {s : Instant × α}
    (h : ∀ g ∈ groups, g.closes idle max ≤ s.1) :
    place idle max groups s = groups ++ [start s] := by
  rcases List.eq_nil_or_concat' groups with rfl | ⟨before, g, rfl⟩
  · rfl
  · have hlate : ¬(s.1 : WithTop Instant) < g.closes idle max :=
      not_lt.mpr (h g (List.mem_append_right _ List.mem_cons_self))
    rw [place_concat, if_neg hlate, List.append_assoc]
    rfl

theorem le_closes_start (s : Instant × α) :
    (s.1 : WithTop Instant) ≤ (start s).closes idle max :=
  le_min (s.1.le_after idle) (s.1.le_after max)

/-- A later submission puts the end of a group off. -/
theorem closes_le_closes_join {g : Group α} {s : Instant × α} (h : g.latest ≤ s.1) :
    g.closes idle max ≤ (g.join s).closes idle max :=
  min_le_min (Instant.after_mono h idle) le_rfl

end Group

namespace Batch

def group (b : Batch α) : Group α := ⟨b.createdAt, b.lastActivity, b.requests⟩

theorem group_push (b : Batch α) (request : α) (slot : Ticket) (now : Instant) :
    (b.push request slot now).group = b.group.join (now, request) := rfl

/-- A batch has to flush at the instant at which its group is complete, for the group's reason. -/
theorem deadline_eq (b : Batch α) (idle max : Duration) :
    (b.deadline idle max).map Prod.fst = b.group.closes idle max ∧
      ∀ p ∈ b.deadline idle max, p.2 = b.group.reason idle max := by
  have hidle : b.group.latest.after idle = b.lastActivity.add? idle := rfl
  have hmax : b.group.first.after max = b.createdAt.add? max := rfl
  unfold deadline Group.closes Group.reason
  rw [hidle, hmax]
  cases b.lastActivity.add? idle with
  | none =>
    cases b.createdAt.add? max with
    | none => exact ⟨(min_self (⊤ : WithTop Instant)).symm, by simp⟩
    | some maxAt =>
      have hmin : min (⊤ : WithTop Instant) (maxAt : WithTop Instant) = maxAt :=
        min_eq_right le_top
      have hlate : ¬(⊤ : WithTop Instant) < (maxAt : WithTop Instant) := not_top_lt
      refine ⟨hmin.symm, fun p hp => ?_⟩
      rw [← Option.mem_some.mp hp]
      exact (if_neg hlate).symm
  | some idleAt =>
    cases b.createdAt.add? max with
    | none =>
      have hmin : min (idleAt : WithTop Instant) (⊤ : WithTop Instant) = idleAt :=
        min_eq_left le_top
      have hsoon : (idleAt : WithTop Instant) < ⊤ := WithTop.coe_lt_top idleAt
      refine ⟨hmin.symm, fun p hp => ?_⟩
      rw [← Option.mem_some.mp hp]
      exact (if_pos hsoon).symm
    | some maxAt =>
      dsimp only
      by_cases h : idleAt < maxAt
      · have hsoon : (idleAt : WithTop Instant) < (maxAt : WithTop Instant) :=
          WithTop.coe_lt_coe.mpr h
        rw [if_pos h]
        refine ⟨(min_eq_left hsoon.le).symm, fun p hp => ?_⟩
        rw [← Option.mem_some.mp hp]
        exact (if_pos hsoon).symm
      · have hlate : ¬(idleAt : WithTop Instant) < (maxAt : WithTop Instant) :=
          fun hsoon => h (WithTop.coe_lt_coe.mp hsoon)
        rw [if_neg h]
        refine ⟨(min_eq_right (not_lt.mp hlate)).symm, fun p hp => ?_⟩
        rw [← Option.mem_some.mp hp]
        exact (if_neg hlate).symm

theorem deadline_eq_none_iff {b : Batch α} :
    b.deadline idle max = none ↔ b.group.closes idle max = ⊤ := by
  rw [← (b.deadline_eq idle max).1]
  exact Option.map_eq_none_iff.symm

theorem deadline_eq_some {b : Batch α} {p : Instant × FlushReason}
    (h : b.deadline idle max = some p) :
    b.group.closes idle max = (p.1 : WithTop Instant) ∧ p.2 = b.group.reason idle max := by
  obtain ⟨hfst, hsnd⟩ := b.deadline_eq idle max
  rw [h] at hfst
  exact ⟨hfst.symm, hsnd p h⟩

end Batch

end Coalesce
