import Coalesce.Proofs.Pool
import Mathlib.Data.List.Perm.Lattice

/-! # The order in which a pool gives out its slots

The tasks that have a slot and those that queue for one stand in one line, in the order in which
they first asked. A slot that comes free moves the border between the two parts of the line by one
task, so nobody is overtaken. -/
namespace Coalesce.Pool
variable {p p' : Pool} {i j : Nat}

def served (p : Pool) : List Nat := p.handed ++ p.holding

def gains (p p' : Pool) : List Nat := p'.served.filter fun i => i ∉ p.served

theorem mem_served : j ∈ p.served ↔ j ∈ p.handed ∨ j ∈ p.holding := List.mem_append

/-- Who waits or is served has its place in the line. -/
theorem mem_line : j ∈ p.served ++ p.queue ↔ j ∈ p.waiters ∨ j ∈ p.holding := by
  rw [List.mem_append, mem_served, mem_waiters]
  tauto

theorem mem_gains : j ∈ p.gains p' ↔ j ∈ p'.served ∧ j ∉ p.served := by
  rw [gains, List.mem_filter, decide_eq_true_iff]

theorem gains_eq_nil (h : ∀ j ∈ p'.served, j ∈ p.served) : p.gains p' = [] := by
  refine List.eq_nil_iff_forall_not_mem.mpr fun j hj => ?_
  obtain ⟨hserved, hnew⟩ := mem_gains.mp hj
  exact hnew (h j hserved)

@[simp] theorem gains_self (p : Pool) : p.gains p = [] := gains_eq_nil fun _ hj => hj

theorem gains_eq_singleton (nd : p'.served.Nodup) (hi : i ∈ p'.served) (hnew : i ∉ p.served)
    (hold : ∀ j ∈ p'.served, j = i ∨ j ∈ p.served) : p.gains p' = [i] := by
  refine List.perm_singleton.mp ((List.perm_ext_iff_of_nodup (nd.filter _)
    (List.nodup_singleton i)).mpr fun j => ?_)
  rw [← gains, mem_gains, List.mem_singleton]
  constructor
  · rintro ⟨hj, hn⟩
    exact (hold j hj).resolve_right hn
  · rintro rfl
    exact ⟨hi, hnew⟩

namespace Balanced

theorem served_nodup (h : Balanced p) : p.served.Nodup := by
  have hplaces := h.places
  rw [waiters, List.append_assoc] at hplaces
  exact (List.nodup_append.mp hplaces).2.1

theorem notMem_served (h : Balanced p) (hi : i ∈ p.queue) : i ∉ p.served := by
  have hplaces := h.places
  rw [waiters, List.append_assoc] at hplaces
  intro hs
  exact (List.nodup_append.mp hplaces).2.2 i hi i hs rfl

theorem length_served (h : Balanced p) : p.available + p.served.length = p.max := by
  have hslots := h.slots
  rw [served, List.length_append]
  omega

end Balanced

/-- A slot given back goes to the first in the queue. -/
theorem gains_release {q : Pool} (hqueue : q.queue = p.queue)
    (hsub : ∀ j ∈ q.served, j ∈ p.served) (hnew : ∀ j ∈ p.queue, j ∉ p.served)
    (nd : q.release.served.Nodup) : p.gains q.release ++ q.release.queue = p.queue := by
  cases hq : q.queue with
  | nil =>
    have hrelease : q.release = { q with available := q.available + 1 } := by rw [release, hq]
    have hgains : p.gains q.release = [] := by
      refine gains_eq_nil fun j hj => ?_
      rw [hrelease] at hj
      exact hsub j hj
    rw [hgains, hrelease, List.nil_append]
    exact hqueue
  | cons k queue =>
    have hrelease : q.release = { q with queue := queue, handed := q.handed ++ [k] } := by
      rw [release, hq]
    have hk : k ∈ p.queue := by rw [← hqueue, hq]; exact List.mem_cons_self
    have hgains : p.gains q.release = [k] := by
      refine gains_eq_singleton nd ?_ (hnew k hk) fun j hj => ?_
      · rw [hrelease]
        simp [served]
      · rw [hrelease, mem_served, List.mem_append, List.mem_singleton] at hj
        rcases hj with (hj | hj) | hj
        · exact .inr (hsub j (mem_served.mpr (.inl hj)))
        · exact .inl hj
        · exact .inr (hsub j (mem_served.mpr (.inr hj)))
    rw [hgains, ← hqueue, hq, hrelease]
    rfl

namespace Balanced

/-- Who leaves is taken out of the line, and the border moves on if a slot has come free. -/
theorem gains_leave (h : Balanced p) (i : Nat) :
    p.gains (p.leave i) ++ (p.leave i).queue = p.queue.erase i := by
  have nd := (h.leave i).served_nodup
  have hnew : ∀ j ∈ p.queue, j ∉ p.served := fun j hj => h.notMem_served hj
  have hout : i ∈ p.served → p.queue.erase i = p.queue := fun hi =>
    List.erase_of_not_mem fun hq => h.notMem_served hq hi
  by_cases hh : i ∈ p.holding
  · have hleave : p.leave i = release { p with holding := p.holding.erase i } := by
      rw [Pool.leave, if_pos hh]
    rw [hleave] at nd ⊢
    rw [hout (mem_served.mpr (.inr hh))]
    refine gains_release rfl (fun j hj => ?_) hnew nd
    exact mem_served.mpr ((mem_served.mp hj).imp_right List.mem_of_mem_erase)
  · by_cases hn : i ∈ p.handed
    · have hleave : p.leave i = release { p with handed := p.handed.erase i } := by
        rw [Pool.leave, if_neg hh, if_pos hn]
      rw [hleave] at nd ⊢
      rw [hout (mem_served.mpr (.inl hn))]
      refine gains_release rfl (fun j hj => ?_) hnew nd
      exact mem_served.mpr ((mem_served.mp hj).imp_left List.mem_of_mem_erase)
    · have hleave : p.leave i = { p with queue := p.queue.erase i } := by
        rw [Pool.leave, if_neg hh, if_neg hn]
      have hgains : p.gains { p with queue := p.queue.erase i } = [] :=
        gains_eq_nil fun j hj => hj
      rw [hleave, hgains, List.nil_append]

theorem mem_line_leave (h : Balanced p) :
    j ∈ (p.leave i).served ++ (p.leave i).queue ↔ j ∈ p.served ++ p.queue ∧ j ≠ i := by
  rw [mem_line, mem_line, h.mem_waiters_leave, h.mem_holding_leave]
  tauto

theorem mem_served_leave (h : Balanced p) (hj : j ∈ p.served) (hne : j ≠ i) :
    j ∈ (p.leave i).served := by
  have hrelease : ∀ q : Pool, j ∈ q.handed → j ∈ q.release.handed := by
    intro q hq
    unfold release
    cases q.queue with
    | nil => exact hq
    | cons k queue => exact List.mem_append_left _ hq
  rcases mem_served.mp hj with hj | hj
  · refine mem_served.mpr (.inl ?_)
    unfold Pool.leave
    by_cases hh : i ∈ p.holding
    · rw [if_pos hh]
      exact hrelease _ hj
    · rw [if_neg hh]
      by_cases hn : i ∈ p.handed
      · rw [if_pos hn]
        exact hrelease _ ((List.mem_erase_of_ne hne).mpr hj)
      · rw [if_neg hn]
        exact hj
  · exact mem_served.mpr (.inr (h.mem_holding_leave.mpr ⟨hj, hne⟩))

end Balanced

/-- Who asks for the first time is put at the end of the line; who asks again stays in its place. -/
theorem Answered.gains_ask {answer : PoolAnswer} (h : Answered p i false p' answer)
    (hp : Balanced p) (hi : i ∉ p.holding) :
    p.gains p' ++ p'.queue = if i ∈ p.waiters then p.queue else p.queue ++ [i] := by
  have nd := (h.balanced hp hi).served_nodup
  cases h with
  | taken hn =>
    have hgains : p.gains { p with
        handed := p.handed.erase i, holding := p.holding ++ [i] } = [] := by
      refine gains_eq_nil fun j hj => ?_
      simp only [mem_served, List.mem_append, List.mem_singleton] at hj ⊢
      rcases hj with hj | hj | rfl
      · exact .inl (List.mem_of_mem_erase hj)
      · exact .inr hj
      · exact .inl hn
    rw [if_pos (mem_waiters.mpr (.inr hn)), hgains]
    rfl
  | kept hn hq => rw [if_pos (mem_waiters.mpr (.inl hq)), gains_self, List.nil_append]
  | queued hn hq =>
    have hout : i ∉ p.waiters := by simp [mem_waiters, hn, hq]
    have hgains : p.gains { p with queue := p.queue ++ [i] } = [] :=
      gains_eq_nil fun j hj => hj
    rw [if_neg hout, hgains, List.nil_append]
  | admitted hn hq ha =>
    have hout : i ∉ p.waiters := by simp [mem_waiters, hn, hq]
    have hnil : p.queue = [] := by
      by_contra hne
      exact ha (hp.busy hne)
    have hgains : p.gains { p with
        available := p.available - 1, holding := p.holding ++ [i] } = [i] := by
      refine gains_eq_singleton nd (by simp [served]) (by simp [served, hn, hi]) fun j hj => ?_
      simp only [mem_served, List.mem_append, List.mem_singleton] at hj ⊢
      tauto
    rw [if_neg hout, hgains, hnil]
    rfl

/-- Nobody but the one that asks is moved. -/
theorem Answered.waiters_of_ne {answer : PoolAnswer} (h : Answered p i false p' answer)
    (hne : j ≠ i) : j ∈ p'.waiters ↔ j ∈ p.waiters := by
  rw [mem_waiters, mem_waiters]
  cases h with
  | taken => rw [List.mem_erase_of_ne hne]
  | kept => exact Iff.rfl
  | queued => simp [hne]
  | admitted => exact Iff.rfl

theorem Answered.served_mono {answer : PoolAnswer} (h : Answered p i false p' answer)
    (hj : j ∈ p.served) : j ∈ p'.served := by
  cases h with
  | taken =>
    by_cases hij : j = i
    · simp [mem_served, hij]
    · simpa [mem_served, hij, List.mem_erase_of_ne hij] using hj
  | kept => exact hj
  | queued => exact hj
  | admitted =>
    rw [mem_served] at hj ⊢
    exact hj.imp_right (List.mem_append_left _)

theorem Answered.mem_waiters_of_waiting {c : Bool} (h : Answered p i c p' .waiting) :
    i ∈ p'.waiters := by
  cases h with
  | kept hn hq => exact mem_waiters.mpr (.inl hq)
  | queued => exact mem_waiters.mpr (.inl (List.mem_append_right _ List.mem_cons_self))

/-- Who is told to wait has no slot, and all slots are in use. -/
theorem Answered.busy_of_waiting {c : Bool} (h : Answered p i c p' .waiting) (hp : Balanced p)
    (hi : i ∉ p.holding) : i ∉ p.served ∧ p.available = 0 := by
  cases h with
  | kept hn hq => exact ⟨hp.notMem_served hq, hp.busy (List.ne_nil_of_mem hq)⟩
  | queued hn hq ha => exact ⟨by simp [mem_served, hn, hi], ha⟩

/-- The line is `order`: first those that are served, in whatever order, and then the queue. -/
def Lined (p : Pool) (order : List Nat) : Prop :=
  ∃ front, order = front ++ p.queue ∧ front.Perm p.served

namespace Lined
variable {order : List Nat}

theorem mem_iff (h : p.Lined order) : j ∈ order ↔ j ∈ p.served ++ p.queue := by
  obtain ⟨front, rfl, hfront⟩ := h
  rw [List.mem_append, List.mem_append, hfront.mem_iff]

/-- The front of the line is what is kept of it, and then those that have gained a slot. -/
theorem of_gains {kept : List Nat} (nd : kept.Nodup) (hp' : Balanced p')
    (hkept : ∀ j, j ∈ kept ↔ j ∈ p.served ∧ j ∈ p'.served) :
    p'.Lined (kept ++ (p.gains p' ++ p'.queue)) := by
  refine ⟨kept ++ p.gains p', (List.append_assoc ..).symm, ?_⟩
  have hnew : (kept ++ p.gains p').Nodup := by
    refine List.nodup_append.mpr ⟨nd, hp'.served_nodup.filter _, ?_⟩
    rintro j hj k hk rfl
    exact (mem_gains.mp hk).2 ((hkept j).mp hj).1
  refine (List.perm_ext_iff_of_nodup hnew hp'.served_nodup).mpr fun j => ?_
  rw [List.mem_append, hkept, mem_gains]
  tauto

theorem leave (h : p.Lined order) (hp : Balanced p) (i : Nat) :
    (p.leave i).Lined (order.erase i) := by
  obtain ⟨front, rfl, hfront⟩ := h
  have nd : front.Nodup := hfront.nodup_iff.mpr hp.served_nodup
  have hline : (front ++ p.queue).erase i =
      front.erase i ++ (p.gains (p.leave i) ++ (p.leave i).queue) := by
    rw [hp.gains_leave]
    by_cases hi : i ∈ front
    · have hq : i ∉ p.queue := fun hq => hp.notMem_served hq (hfront.mem_iff.mp hi)
      rw [List.erase_append_left _ hi, List.erase_of_not_mem hq]
    · rw [List.erase_append_right _ hi, List.erase_of_not_mem hi]
  rw [hline]
  refine of_gains (nd.erase i) (hp.leave i) fun j => ?_
  rw [nd.mem_erase_iff, hfront.mem_iff]
  constructor
  · rintro ⟨hne, hj⟩
    exact ⟨hj, hp.mem_served_leave hj hne⟩
  · rintro ⟨hj, hleft⟩
    exact ⟨(hp.mem_line_leave.mp (List.mem_append_left _ hleft)).2, hj⟩

theorem ask {answer : PoolAnswer} (h : p.Lined order) (hp : Balanced p) (hi : i ∉ p.holding)
    (ha : Answered p i false p' answer) :
    p'.Lined (if i ∈ order then order else order ++ [i]) := by
  have hiff : i ∈ order ↔ i ∈ p.waiters := by rw [h.mem_iff, mem_line, or_iff_left hi]
  obtain ⟨front, rfl, hfront⟩ := h
  have hline : (if i ∈ front ++ p.queue then front ++ p.queue else front ++ p.queue ++ [i]) =
      front ++ (p.gains p' ++ p'.queue) := by
    rw [ha.gains_ask hp hi]
    by_cases hw : i ∈ p.waiters
    · rw [if_pos hw, if_pos (hiff.mpr hw)]
    · rw [if_neg hw, if_neg fun ho => hw (hiff.mp ho), List.append_assoc]
  rw [hline]
  refine of_gains (hfront.nodup_iff.mpr hp.served_nodup) (ha.balanced hp hi) fun j => ?_
  rw [hfront.mem_iff]
  exact (and_iff_left_of_imp fun hj => ha.served_mono hj).symm

/-- If a line is part of another, a task served in the longer line is served in the shorter. -/
theorem served_of_filterMap {f : Nat → Option Nat} (h : p.Lined order)
    (h' : p'.Lined (order.filterMap f)) (hp : Balanced p) (hp' : Balanced p')
    (hmax : p'.max = p.max) (hi : i ∈ p.served) (hf : f i = some j) : j ∈ p'.served := by
  obtain ⟨front, rfl, hfront⟩ := h
  obtain ⟨before, after, rfl⟩ := List.append_of_mem (hfront.mem_iff.mpr hi)
  obtain ⟨front', hline, hfront'⟩ := h'
  have hsplit : (before ++ i :: after ++ p.queue).filterMap f =
      before.filterMap f ++ j :: (after ++ p.queue).filterMap f := by
    rw [List.append_assoc, List.filterMap_append, List.cons_append, List.filterMap_cons_some hf]
  rw [hsplit] at hline
  by_contra hj
  -- then it queues behind all those that are served, who are too many to stand before it
  have hprefix : ∃ rest, before.filterMap f = front' ++ rest ∧ p'.queue ≠ [] := by
    rcases List.append_eq_append_iff.mp hline with ⟨rest, hfront, hqueue⟩ | ⟨rest, hbefore, hqueue⟩
    · cases rest with
      | nil =>
        rw [List.nil_append] at hqueue
        exact ⟨[], by simpa using hfront.symm, by simp [← hqueue]⟩
      | cons k rest =>
        obtain ⟨rfl, -⟩ := List.cons.inj hqueue
        exact absurd (hfront'.mem_iff.mp (by simp [hfront])) hj
    · exact ⟨rest, hbefore, by simp [hqueue]⟩
  obtain ⟨rest, hbefore, hqueue⟩ := hprefix
  have hfew : (before.filterMap f).length ≤ before.length := List.length_filterMap_le ..
  have hall : before.length + after.length + 1 = p.served.length := by
    rw [← hfront.length_eq, List.length_append, List.length_cons]
    omega
  have hslots := hp.length_served
  have hslots' := hp'.length_served
  have hbusy := hp'.busy hqueue
  rw [hbefore, List.length_append, hfront'.length_eq] at hfew
  omega

end Lined

end Coalesce.Pool
