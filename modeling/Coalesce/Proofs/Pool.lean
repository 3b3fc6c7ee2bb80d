import Coalesce.Pool
import Mathlib.Data.List.Nodup

/-! # The slots of a pool

No slot is lost and none is made, however tasks come and go: every slot is free, handed to a task,
or held by one. -/
namespace Coalesce.Pool
variable {p p' : Pool} {i j : Nat}

def waiters (p : Pool) : List Nat := p.queue ++ p.handed

/-- Every slot is accounted for, no task has two places, and none queues up while a slot is free. -/
structure Balanced (p : Pool) : Prop where
  slots : p.available + p.handed.length + p.holding.length = p.max
  places : (p.waiters ++ p.holding).Nodup
  busy : p.queue ≠ [] → p.available = 0

theorem mem_waiters : j ∈ p.waiters ↔ j ∈ p.queue ∨ j ∈ p.handed := List.mem_append

theorem waiters_release (p : Pool) : p.release.waiters.Perm p.waiters := by
  unfold release
  cases hq : p.queue with
  | nil => simp [waiters, hq]
  | cons k queue =>
    simp only [waiters, hq]
    rw [← List.append_assoc]
    exact List.perm_append_comm

@[simp] theorem holding_release (p : Pool) : p.release.holding = p.holding := by
  unfold release
  cases p.queue <;> rfl

@[simp] theorem max_release (p : Pool) : p.release.max = p.max := by
  unfold release
  cases p.queue <;> rfl

theorem slots_release (p : Pool) :
    p.release.available + p.release.handed.length = p.available + p.handed.length + 1 := by
  unfold release
  cases p.queue with
  | nil => simp only; omega
  | cons k queue => simp only [List.length_append, List.length_singleton]; omega

theorem busy_release (h : p.queue ≠ [] → p.available = 0) :
    p.release.queue ≠ [] → p.release.available = 0 := by
  unfold release
  cases hq : p.queue with
  | nil => simp
  | cons k queue => exact fun _ => h (by simp [hq])

/-- A pool is balanced when a slot that was missing is given back. -/
theorem balanced_release (hslots : p.available + p.handed.length + p.holding.length + 1 = p.max)
    (hplaces : (p.waiters ++ p.holding).Nodup) (hbusy : p.queue ≠ [] → p.available = 0) :
    p.release.Balanced := by
  constructor
  case slots =>
    have hs := p.slots_release
    rw [holding_release, max_release]
    omega
  case places =>
    rw [holding_release]
    exact (p.waiters_release.append_right _).nodup_iff.mpr hplaces
  case busy => exact busy_release hbusy

@[simp] theorem max_leave (p : Pool) (i : Nat) : (p.leave i).max = p.max := by
  unfold leave
  by_cases hh : i ∈ p.holding
  · rw [if_pos hh, max_release]
  · rw [if_neg hh]
    by_cases hn : i ∈ p.handed
    · rw [if_pos hn, max_release]
    · rw [if_neg hn]

@[simp] theorem holding_leave (p : Pool) (i : Nat) :
    (p.leave i).holding = p.holding.erase i := by
  unfold leave
  by_cases hh : i ∈ p.holding
  · rw [if_pos hh, holding_release]
  · rw [if_neg hh, List.erase_of_not_mem hh]
    by_cases hn : i ∈ p.handed
    · rw [if_pos hn, holding_release]
    · rw [if_neg hn]

theorem leave_eq_self (hw : i ∉ p.waiters) (hh : i ∉ p.holding) : p.leave i = p := by
  obtain ⟨hq, hn⟩ := not_or.mp fun hor => hw (mem_waiters.mpr hor)
  rw [leave, if_neg hh, if_neg hn, List.erase_of_not_mem hq]

namespace Balanced

theorem waiters_nodup (h : Balanced p) : p.waiters.Nodup := (List.nodup_append.mp h.places).1

theorem holding_nodup (h : Balanced p) : p.holding.Nodup := (List.nodup_append.mp h.places).2.1

theorem notMem_holding (h : Balanced p) (hi : i ∈ p.waiters) : i ∉ p.holding := by
  intro hh
  exact (List.nodup_append.mp h.places).2.2 i hi i hh rfl

theorem mem_holding_leave (h : Balanced p) :
    j ∈ (p.leave i).holding ↔ j ∈ p.holding ∧ j ≠ i := by
  rw [holding_leave, h.holding_nodup.mem_erase_iff, and_comm]

theorem mem_waiters_leave (h : Balanced p) :
    j ∈ (p.leave i).waiters ↔ j ∈ p.waiters ∧ j ≠ i := by
  obtain ⟨hqueue, hhanded, hdisjoint⟩ := List.nodup_append.mp h.waiters_nodup
  unfold leave
  by_cases hh : i ∈ p.holding
  · have hne : j ∈ p.waiters → j ≠ i := by
      rintro hj rfl
      exact h.notMem_holding hj hh
    rw [if_pos hh, (waiters_release _).mem_iff, and_iff_left_of_imp hne]
    exact Iff.rfl
  · rw [if_neg hh]
    by_cases hn : i ∈ p.handed
    · have hne : j ∈ p.queue → j ≠ i := fun hj => hdisjoint j hj i hn
      rw [if_pos hn, (waiters_release _).mem_iff, mem_waiters, mem_waiters,
        hhanded.mem_erase_iff]
      constructor
      · rintro (hj | ⟨hji, hj⟩)
        · exact ⟨.inl hj, hne hj⟩
        · exact ⟨.inr hj, hji⟩
      · rintro ⟨hj | hj, hji⟩
        · exact .inl hj
        · exact .inr ⟨hji, hj⟩
    · have hne : j ∈ p.handed → j ≠ i := fun hj he => hn (he ▸ hj)
      rw [if_neg hn, mem_waiters, mem_waiters, hqueue.mem_erase_iff]
      constructor
      · rintro (⟨hji, hj⟩ | hj)
        · exact ⟨.inl hj, hji⟩
        · exact ⟨.inr hj, hne hj⟩
      · rintro ⟨hj | hj, hji⟩
        · exact .inl ⟨hji, hj⟩
        · exact .inr hj

/-- Wherever a task is when it leaves, a slot that it has goes to the next task or is free again. -/
theorem leave (h : Balanced p) (i : Nat) : (p.leave i).Balanced := by
  unfold Pool.leave
  have hslots := h.slots
  by_cases hh : i ∈ p.holding
  · rw [if_pos hh]
    refine balanced_release ?_ ?_ h.busy
    · have hlen := List.length_erase_of_mem hh
      have hpos := List.length_pos_of_mem hh
      simp only
      omega
    · exact h.places.sublist (List.erase_sublist.append_left _)
  · rw [if_neg hh]
    by_cases hn : i ∈ p.handed
    · rw [if_pos hn]
      refine balanced_release ?_ ?_ h.busy
      · have hlen := List.length_erase_of_mem hn
        have hpos := List.length_pos_of_mem hn
        simp only
        omega
      · exact h.places.sublist ((List.erase_sublist.append_left _).append_right _)
    · rw [if_neg hn]
      refine ⟨hslots, ?_, ?_⟩
      · exact h.places.sublist ((List.erase_sublist.append_right _).append_right _)
      · exact fun hq => h.busy fun hnil => hq (by rw [hnil]; rfl)

end Balanced

/-- What can come of the task `i`'s looking for a slot, its scope being cancelled or not. -/
inductive Answered (p : Pool) (i : Nat) : Bool → Pool → PoolAnswer → Prop where
  | cancelled : Answered p i true (p.leave i) .cancelled
  | taken : i ∈ p.handed → Answered p i false
      { p with handed := p.handed.erase i, holding := p.holding ++ [i] } .granted
  | kept : i ∉ p.handed → i ∈ p.queue → Answered p i false p .waiting
  | queued : i ∉ p.handed → i ∉ p.queue → p.available = 0 →
      Answered p i false { p with queue := p.queue ++ [i] } .waiting
  | admitted : i ∉ p.handed → i ∉ p.queue → p.available ≠ 0 → Answered p i false
      { p with available := p.available - 1, holding := p.holding ++ [i] } .granted

theorem ask_answered (p : Pool) (i : Nat) (c : Bool) :
    Answered p i c (p.ask i c).1 (p.ask i c).2 := by
  unfold ask
  cases c with
  | true => exact .cancelled
  | false =>
    rw [if_neg (by decide)]
    by_cases hn : i ∈ p.handed
    · rw [if_pos hn]
      exact .taken hn
    · rw [if_neg hn]
      by_cases hq : i ∈ p.queue
      · rw [if_pos hq]
        exact .kept hn hq
      · rw [if_neg hq]
        by_cases ha : p.available = 0
        · rw [if_pos ha]
          exact .queued hn hq ha
        · rw [if_neg ha]
          exact .admitted hn hq ha

namespace Answered
variable {c : Bool} {answer : PoolAnswer}

theorem max_eq (h : Answered p i c p' answer) : p'.max = p.max := by
  cases h with
  | cancelled => exact max_leave ..
  | _ => rfl

theorem balanced (h : Answered p i c p' answer) (hp : Balanced p) (hi : i ∉ p.holding) :
    Balanced p' := by
  have hslots := hp.slots
  obtain ⟨hwaiters, hholding, hdisjoint⟩ := List.nodup_append.mp hp.places
  cases h with
  | cancelled => exact hp.leave i
  | taken hn =>
    have hlen := List.length_erase_of_mem hn
    have hpos := List.length_pos_of_mem hn
    refine ⟨?_, ?_, hp.busy⟩
    · simp only [List.length_append, List.length_singleton]
      omega
    · -- the task moves from one place to another
      have hmoved : (p.waiters ++ p.holding).Perm
          (p.queue ++ p.handed.erase i ++ (p.holding ++ [i])) := by
        have hfront := ((List.perm_cons_erase hn).append_left p.queue).append_right p.holding
        refine hfront.trans ?_
        rw [← List.append_assoc]
        exact (List.perm_middle.append_right p.holding).trans
          (List.perm_append_singleton i _).symm
      exact hmoved.nodup_iff.mp hp.places
  | kept => exact hp
  | queued hn hq ha =>
    refine ⟨hslots, ?_, fun _ => ha⟩
    have hnew : (i :: (p.waiters ++ p.holding)).Nodup := by
      refine List.nodup_cons.mpr ⟨?_, hp.places⟩
      simp [waiters, hn, hq, hi]
    have hmoved : (i :: (p.waiters ++ p.holding)).Perm
        (p.queue ++ [i] ++ p.handed ++ p.holding) := by
      simp only [waiters, List.append_assoc]
      exact List.perm_middle.symm
    exact hmoved.nodup_iff.mp hnew
  | admitted hn hq ha =>
    refine ⟨?_, ?_, fun hne => absurd (hp.busy hne) ha⟩
    · simp only [List.length_append, List.length_singleton]
      omega
    · show (p.waiters ++ (p.holding ++ [i])).Nodup
      rw [← List.append_assoc]
      refine List.nodup_append.mpr ⟨hp.places, List.nodup_singleton i, ?_⟩
      intro k hk k' hk' heq
      rw [heq, List.mem_singleton.mp hk'] at hk
      simp [waiters, hn, hq, hi] at hk

theorem cancelled_eq (h : Answered p i c p' .cancelled) : c = true ∧ p' = p.leave i := by
  cases h
  exact ⟨rfl, rfl⟩

theorem waiting (h : Answered p i c p' .waiting) :
    p'.holding = p.holding ∧ ∀ k ∈ p'.waiters, k ∈ p.waiters ∨ k = i := by
  cases h with
  | kept => exact ⟨rfl, fun k hk => .inl hk⟩
  | queued =>
    refine ⟨rfl, fun k hk => ?_⟩
    simp only [mem_waiters, List.mem_append, List.mem_singleton] at hk ⊢
    tauto

theorem granted (h : Answered p i c p' .granted) (hp : Balanced p) :
    p'.holding = p.holding ++ [i] ∧ ∀ k ∈ p'.waiters, k ∈ p.waiters ∧ k ≠ i := by
  obtain ⟨hqueue, hhanded, hdisjoint⟩ := List.nodup_append.mp hp.waiters_nodup
  cases h with
  | taken hn =>
    refine ⟨rfl, fun k hk => ?_⟩
    rcases mem_waiters.mp hk with hk | hk
    · exact ⟨mem_waiters.mpr (.inl hk), hdisjoint k hk i hn⟩
    · obtain ⟨hne, hk⟩ := hhanded.mem_erase_iff.mp hk
      exact ⟨mem_waiters.mpr (.inr hk), hne⟩
  | admitted hn hq =>
    refine ⟨rfl, fun k hk => ⟨hk, ?_⟩⟩
    rintro rfl
    rcases mem_waiters.mp hk with hk | hk
    · exact hq hk
    · exact hn hk

end Answered

end Coalesce.Pool
