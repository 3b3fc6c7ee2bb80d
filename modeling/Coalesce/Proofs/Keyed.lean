import Mathlib.Data.List.Nodup

/-! # Lists in which every entry has a key of its own

One entry can be told from the others by its key, so a list is that entry with the rest, whatever
is done to the entry alone. -/
namespace Coalesce.Keyed
variable {γ δ κ : Type*} [DecidableEq κ] {f : γ → κ} {l : List γ} {x : γ}

def others (f : γ → κ) (k : κ) (l : List γ) : List γ := l.filter fun y => f y ≠ k

theorem others_sublist (f : γ → κ) (k : κ) (l : List γ) : (others f k l).Sublist l :=
  List.filter_sublist

theorem mem_others {k : κ} {y : γ} : y ∈ others f k l ↔ y ∈ l ∧ f y ≠ k := by
  simp [others]

theorem others_eq_self {k : κ} (h : k ∉ l.map f) : others f k l = l := by
  refine List.filter_eq_self.mpr ?_
  intro y hy
  simpa using fun he => h (List.mem_map.mpr ⟨y, hy, he⟩)

/-- What is done to the entries with the key of `x` is done to `x` alone. -/
theorem perm_map_ite (g : γ → γ) (nd : (l.map f).Nodup) (hx : x ∈ l) :
    (l.map fun y => if f y = f x then g y else y).Perm (g x :: others f (f x) l) := by
  induction l with
  | nil => cases hx
  | cons y l ih =>
    obtain ⟨hy, hl⟩ := List.nodup_cons.mp nd
    rcases List.mem_cons.mp hx with rfl | hx
    · have hsame : ∀ z ∈ l, (if f z = f x then g z else z) = z := by
        intro z hz
        rw [if_neg]
        exact fun he => hy (List.mem_map.mpr ⟨z, hz, he⟩)
      have hrest : others f (f x) (x :: l) = l := by
        rw [others, List.filter_cons_of_neg (by simp)]
        exact others_eq_self hy
      rw [hrest, List.map_cons, if_pos rfl, List.map_congr_left hsame, List.map_id']
    · have hne : f y ≠ f x := fun he => hy (he ▸ List.mem_map_of_mem hx)
      have hrest : others f (f x) (y :: l) = y :: others f (f x) l := by
        rw [others, List.filter_cons_of_pos (by simpa using hne), others]
      rw [hrest, List.map_cons, if_neg hne]
      exact ((ih hl hx).cons y).trans (List.Perm.swap ..)

theorem perm_cons_others (nd : (l.map f).Nodup) (hx : x ∈ l) :
    l.Perm (x :: others f (f x) l) := by
  simpa using perm_map_ite id nd hx

theorem lookup_cons_ne {k i : κ} (h : k ≠ i) (d : δ) (l : List (κ × δ)) :
    ((i, d) :: l).lookup k = l.lookup k := by
  rw [List.lookup_cons, beq_eq_false_iff_ne.mpr h]

theorem lookup_map_ite (g : δ → δ) (key k : κ) (l : List (κ × δ)) :
    (l.map fun p => if p.1 = key then (p.1, g p.2) else p).lookup k =
      if k = key then (l.lookup k).map g else l.lookup k := by
  induction l with
  | nil => simp
  | cons p l ih =>
    obtain ⟨i, d⟩ := p
    have hmap : (if i = key then (i, g d) else (i, d)) = (i, if i = key then g d else d) := by
      by_cases hi : i = key <;> simp [hi]
    rw [List.map_cons, hmap]
    by_cases hk : k = i
    · subst hk
      by_cases hkey : k = key <;> simp [hkey]
    · rw [lookup_cons_ne hk, ih, lookup_cons_ne hk]

theorem lookup_filter_ne (key k : κ) (l : List (κ × δ)) :
    (l.filter fun p => p.1 ≠ key).lookup k = if k = key then none else l.lookup k := by
  induction l with
  | nil => simp
  | cons p l ih =>
    obtain ⟨i, d⟩ := p
    by_cases hi : i = key
    · rw [List.filter_cons_of_neg (by simpa using hi), ih]
      by_cases hk : k = key
      · simp [hk]
      · rw [if_neg hk, if_neg hk, lookup_cons_ne (hi ▸ hk)]
    · rw [List.filter_cons_of_pos (by simpa using hi)]
      by_cases hk : k = i
      · subst hk
        simp [hi]
      · rw [lookup_cons_ne hk, ih, lookup_cons_ne hk]
end Coalesce.Keyed
