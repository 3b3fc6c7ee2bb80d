import Coalesce.Number.Shortest
import Mathlib.Algebra.Order.Field.Power
import Mathlib.Algebra.Order.Field.Rat
import Mathlib.Tactic.FieldSimp
import Mathlib.Tactic.Linarith
import Mathlib.Tactic.NormNum
import Mathlib.Tactic.Positivity
import Mathlib.Tactic.Ring
/-! # The numbers that round to a binary value

To a magnitude round the numbers between the midpoints to its neighbours, and the midpoints
themselves where its significand is even. No number rounds to two magnitudes, so that a decimal that
reads back to a value tells it from every other one. -/
namespace Coalesce

namespace Decimal

def value (d : Decimal) : ℚ := d.digits * 10 ^ d.exponent

/-- Zeros at the end of the digits, taken off the exponent, change nothing. -/
theorem value_shift (n k : Nat) (e : Int) : value ⟨n * 10 ^ k, e - k⟩ = value ⟨n, e⟩ := by
  have hpow : (10 : ℚ) ^ k ≠ 0 := by positivity
  rw [value, value, zpow_sub₀ (by norm_num), zpow_natCast]
  push_cast
  field_simp

/-- A power with an integer exponent is a quotient of two with natural ones. -/
theorem pow_toNat {b : ℚ} (hb : b ≠ 0) (e : Int) : b ^ e.toNat = b ^ e * b ^ (-e).toNat := by
  rw [← zpow_natCast, ← zpow_natCast, ← zpow_add₀ hb]
  congr 1
  omega

section Comparison
variable {a n : Nat} {i j : Int}

/-- What is compared are the two numbers, both times one and the same number. -/
theorem scaled_lt_iff {c : ℚ} {x y : ℚ} {p q : Nat} (hc : 0 < c) (hx : (p : ℚ) = x * c)
    (hy : (q : ℚ) = y * c) : p < q ↔ x < y := by
  rw [← mul_lt_mul_iff_left₀ hc, ← hx, ← hy, Nat.cast_lt]

theorem scaled_left (a : Nat) (i j : Int) :
    ((a * Nat.pow 10 i.toNat * Nat.pow 2 (-j).toNat : ℕ) : ℚ) =
      a * 10 ^ i * (10 ^ (-i).toNat * 2 ^ (-j).toNat) := by
  have hten : (10 : ℚ) ^ i.toNat = 10 ^ i * 10 ^ (-i).toNat := pow_toNat (by norm_num) i
  simp only [Nat.pow_eq]
  push_cast
  rw [hten]
  ring

theorem scaled_right (n : Nat) (i j : Int) :
    ((n * Nat.pow 2 j.toNat * Nat.pow 10 (-i).toNat : ℕ) : ℚ) =
      n * 2 ^ j * (10 ^ (-i).toNat * 2 ^ (-j).toNat) := by
  have htwo : (2 : ℚ) ^ j.toNat = 2 ^ j * 2 ^ (-j).toNat := pow_toNat (by norm_num) j
  simp only [Nat.pow_eq]
  push_cast
  rw [htwo]
  ring

theorem compareScaled_eq_lt : compareScaled a i n j = .lt ↔ (a * 10 ^ i : ℚ) < n * 2 ^ j := by
  rw [compareScaled, Nat.compare_eq_lt]
  exact scaled_lt_iff (by positivity) (scaled_left a i j) (scaled_right n i j)

theorem compareScaled_eq_gt : compareScaled a i n j = .gt ↔ (n * 2 ^ j : ℚ) < a * 10 ^ i := by
  rw [compareScaled, Nat.compare_eq_gt]
  exact scaled_lt_iff (by positivity) (scaled_right n i j) (scaled_left a i j)

theorem compareScaled_eq_eq : compareScaled a i n j = .eq ↔ (a * 10 ^ i : ℚ) = n * 2 ^ j := by
  rw [compareScaled, Nat.compare_eq_eq]
  have hscale : (0 : ℚ) < 10 ^ (-i).toNat * 2 ^ (-j).toNat := by positivity
  rw [← mul_left_inj' hscale.ne', ← scaled_left, ← scaled_right, Nat.cast_inj]

end Comparison

@[simp] theorem value_strip (fuel : Nat) (d : Decimal) : (d.strip fuel).value = d.value := by
  induction fuel generalizing d with
  | zero => simp [strip]
  | succ fuel ih =>
    rw [strip]
    split
    · rename_i h
      have hdiv : d.digits = d.digits / 10 * 10 := by omega
      have hdigits : (d.digits : ℚ) = (d.digits / 10 : ℕ) * 10 := by exact_mod_cast hdiv
      rw [ih, value, value, zpow_add_one₀ (by norm_num), hdigits]
      ring
    · rfl

end Decimal

namespace Binary
variable {f : FloatFormat} {x y : Binary f} {q : ℚ}

def quarter (x : Binary f) : ℚ := 2 ^ (x.exponent - 2)

def floorQuarters (x : Binary f) : Nat :=
  if x.narrowBelow then 4 * x.significand - 1 else 4 * x.significand - 2

/-- `q` is among the numbers that round to the magnitude of `x`. -/
structure Rounds (x : Binary f) (q : ℚ) : Prop where
  lower : x.floorQuarters * x.quarter ≤ q
  upper : q ≤ (4 * x.significand + 2 : ℕ) * x.quarter
  even : q = x.floorQuarters * x.quarter ∨ q = (4 * x.significand + 2 : ℕ) * x.quarter →
    x.significand % 2 = 0

theorem quarter_pos (x : Binary f) : 0 < x.quarter := zpow_pos (by norm_num) _

theorem rounds_of_readsBack {d : Decimal} (h : x.readsBack d = true) : x.Rounds d.value := by
  unfold readsBack at h
  simp only [Bool.and_eq_true, Bool.or_eq_true, beq_iff_eq, Decimal.compareScaled_eq_lt,
    Decimal.compareScaled_eq_gt, Decimal.compareScaled_eq_eq] at h
  obtain ⟨hlow, hhigh⟩ := h
  constructor
  case lower => exact hlow.elim le_of_lt fun h => h.2.ge
  case upper => exact hhigh.elim le_of_lt fun h => h.2.le
  case even =>
    rintro (heq | heq)
    · exact (hlow.resolve_left heq.not_gt).1
    · exact (hhigh.resolve_left heq.not_lt).1

theorem eq_true_of_onGrid? {g : Int} {d : Decimal} (h : x.onGrid? g = some d) :
    x.readsBack d = true := by
  unfold onGrid? at h
  cases hn : x.neighbours g with
  | mk n up =>
    rw [hn] at h
    simp only at h
    split at h
    · rename_i hbelow habove
      cases up with
      | true => cases h; exact habove
      | false => cases h; exact hbelow
    · cases h; assumption
    · cases h; assumption
    · cases h

theorem value_exactDecimal (x : Binary f) :
    x.exactDecimal.value = 4 * x.significand * x.quarter := by
  have hquarter : (2 : ℚ) ^ x.exponent = 4 * x.quarter := by
    rw [quarter, zpow_sub₀ (by norm_num)]
    ring
  rw [exactDecimal]
  split
  · rename_i he
    have hpow : (2 : ℚ) ^ x.exponent.toNat = 2 ^ x.exponent := by
      rw [← zpow_natCast, Int.toNat_of_nonneg he]
    simp only [Decimal.value, Nat.pow_eq, zpow_zero, mul_one]
    push_cast
    rw [hpow, hquarter]
    ring
  · rename_i he
    have hpow : (5 : ℚ) ^ (-x.exponent).toNat = (5 ^ x.exponent)⁻¹ := by
      rw [← zpow_neg, ← zpow_natCast, Int.toNat_of_nonneg (by omega)]
    have hten : (10 : ℚ) ^ x.exponent = 5 ^ x.exponent * 2 ^ x.exponent := by
      rw [← mul_zpow]
      norm_num
    have hfive : (5 : ℚ) ^ x.exponent ≠ 0 := zpow_ne_zero _ (by norm_num)
    simp only [Decimal.value, Nat.pow_eq]
    push_cast
    rw [hpow, hten, hquarter]
    field_simp

theorem rounds_exactDecimal (h : x.significand ≠ 0) : x.Rounds x.exactDecimal.value := by
  have hquarter := x.quarter_pos
  have hlow : x.floorQuarters < 4 * x.significand := by
    unfold floorQuarters
    split <;> omega
  have hlower : x.floorQuarters * x.quarter < x.exactDecimal.value := by
    rw [value_exactDecimal]
    exact mul_lt_mul_of_pos_right (by exact_mod_cast hlow) hquarter
  have hupper : x.exactDecimal.value < (4 * x.significand + 2 : ℕ) * x.quarter := by
    rw [value_exactDecimal]
    push_cast
    linarith
  refine ⟨hlower.le, hupper.le, ?_⟩
  rintro (heq | heq)
  · exact absurd heq hlower.ne'
  · exact absurd heq hupper.ne

/-- What is printed of a magnitude other than zero rounds to it, whether it was found on a grid or
is the magnitude in full. -/
theorem rounds_shortest (h : x.significand ≠ 0) : x.Rounds x.shortest.value := by
  simp only [shortest, Decimal.value_strip]
  cases hfound : (List.range 17).findSome? fun n => x.onGrid? (x.scale - (n + 1 : Nat)) with
  | none => exact rounds_exactDecimal h
  | some d =>
    obtain ⟨n, -, hgrid⟩ := List.exists_of_findSome?_eq_some hfound
    exact rounds_of_readsBack (eq_true_of_onGrid? hgrid)

theorem rounds_zero (h : x.significand = 0) : x.Rounds 0 := by
  have hfloor : x.floorQuarters = 0 := by
    unfold floorQuarters
    split <;> omega
  have hquarter := x.quarter_pos
  constructor
  case lower => simp [hfloor]
  case upper => positivity
  case even => simp [h]

theorem digits_shortest_pos (h : x.significand ≠ 0) : 0 < x.shortest.digits := by
  have hlow : 0 < x.floorQuarters := by
    unfold floorQuarters
    split <;> omega
  have hpos : 0 < x.shortest.value :=
    lt_of_lt_of_le (mul_pos (by exact_mod_cast hlow) x.quarter_pos) (rounds_shortest h).lower
  refine Nat.pos_of_ne_zero fun hzero => ?_
  rw [Decimal.value, hzero] at hpos
  simp at hpos

theorem significand_lt (x : Binary f) : x.significand < 2 * Nat.pow 2 f.fractionBits := by
  have hfraction := x.fraction_lt
  unfold significand
  split <;> omega

theorem le_significand (h : 0 < x.biased) : Nat.pow 2 f.fractionBits ≤ x.significand := by
  rw [significand, if_neg h.ne']
  omega

def quarters (x : Binary f) : Nat := 2 ^ (x.biased - 1)

theorem quarter_eq (x : Binary f) : x.quarter = x.quarters * 2 ^ (f.leastExponent - 2) := by
  have hexp : x.exponent - 2 = (x.biased - 1 : ℕ) + (f.leastExponent - 2) := by
    rw [exponent]
    ring
  rw [quarter, hexp, zpow_add₀ (by norm_num), zpow_natCast, quarters]
  push_cast
  rfl

/-- A value of the same exponent and significand is the same, up to the sign. -/
theorem eq_of_significand_eq (hb : x.biased - 1 = y.biased - 1)
    (hs : x.significand = y.significand) (hn : x.negative = y.negative) : x = y := by
  have hx := x.fraction_lt
  have hy := y.fraction_lt
  have hsame : x.biased = y.biased ∧ x.fraction = y.fraction := by
    unfold significand at hs
    split at hs <;> split at hs <;> omega
  cases x
  cases y
  simp_all

theorem le_floorQuarters (h : 1 < y.biased) :
    4 * Nat.pow 2 f.fractionBits - 1 ≤ y.floorQuarters := by
  have hsig : y.significand = Nat.pow 2 f.fractionBits + y.fraction := by
    rw [significand, if_neg (by omega)]
  unfold floorQuarters
  split
  · omega
  · rename_i hnarrow
    have hfraction : y.fraction ≠ 0 := fun hzero => hnarrow (by simp [narrowBelow, hzero, h])
    omega

def Before (x y : Binary f) : Prop :=
  x.biased - 1 < y.biased - 1 ∨ x.biased - 1 = y.biased - 1 ∧ x.significand < y.significand

theorem before_trichotomy (x y : Binary f) (hn : x.negative = y.negative) :
    x.Before y ∨ x = y ∨ y.Before x := by
  unfold Before
  rcases Nat.lt_trichotomy (x.biased - 1) (y.biased - 1) with hlt | heq | hgt
  · exact .inl (.inl hlt)
  · rcases Nat.lt_trichotomy x.significand y.significand with hlt | hsame | hgt
    · exact .inl (.inr ⟨heq, hlt⟩)
    · exact .inr (.inl (eq_of_significand_eq heq hsame hn))
    · exact .inr (.inr (.inr ⟨heq.symm, hgt⟩))
  · exact .inr (.inr (.inl hgt))

/-- Above a magnitude of the same exponent the gap is not narrower below. -/
theorem floorQuarters_of_lt (hexp : x.biased - 1 = y.biased - 1)
    (hsig : x.significand < y.significand) : y.floorQuarters = 4 * y.significand - 2 := by
  rw [floorQuarters, if_neg]
  intro hnarrow
  simp only [narrowBelow, Bool.and_eq_true, beq_iff_eq, decide_eq_true_eq] at hnarrow
  obtain ⟨hfraction, hbiased⟩ := hnarrow
  have hx : Nat.pow 2 f.fractionBits ≤ x.significand := le_significand (by omega)
  have hy : y.significand = Nat.pow 2 f.fractionBits := by
    rw [significand, if_neg (by omega), hfraction, Nat.add_zero]
  omega

/-- The midpoint above a magnitude is at most the one below a later magnitude; where they are one,
one of the two significands is odd. -/
theorem Before.midpoints (h : x.Before y) :
    (4 * x.significand + 2) * x.quarters < y.floorQuarters * y.quarters ∨
      (4 * x.significand + 2) * x.quarters = y.floorQuarters * y.quarters ∧
        (x.significand % 2 = 1 ∨ y.significand % 2 = 1) := by
  have hx := x.significand_lt
  have hpos : 0 < x.quarters := Nat.two_pow_pos _
  rcases h with hexp | ⟨hexp, hsig⟩
  · have hfloor : 4 * Nat.pow 2 f.fractionBits - 1 ≤ y.floorQuarters :=
      le_floorQuarters (by omega)
    have hquarters : 2 * x.quarters ≤ y.quarters := by
      rw [quarters, quarters, ← Nat.pow_succ']
      exact Nat.pow_le_pow_right (by norm_num) (by omega)
    have hy : (4 * Nat.pow 2 f.fractionBits - 1) * (2 * x.quarters) ≤
        y.floorQuarters * y.quarters := Nat.mul_le_mul hfloor hquarters
    have hceil : 4 * x.significand + 2 ≤ (4 * Nat.pow 2 f.fractionBits - 1) * 2 := by omega
    rw [← Nat.mul_assoc] at hy
    rcases Nat.lt_or_eq_of_le hceil with hlt | heq
    · exact .inl (lt_of_lt_of_le (Nat.mul_lt_mul_of_pos_right hlt hpos) hy)
    · rw [← heq] at hy
      rcases Nat.lt_or_eq_of_le hy with hlt | hsame
      · exact .inl hlt
      · exact .inr ⟨hsame, .inl (by omega)⟩
  · have hquarters : y.quarters = x.quarters := by rw [quarters, quarters, hexp]
    have hfloor := floorQuarters_of_lt hexp hsig
    rw [hquarters]
    rcases Nat.lt_or_eq_of_le (show x.significand + 1 ≤ y.significand from hsig) with hlt | heq
    · exact .inl (Nat.mul_lt_mul_of_pos_right (by omega) hpos)
    · have hmid : 4 * x.significand + 2 = y.floorQuarters := by omega
      exact .inr ⟨by rw [hmid], by omega⟩

theorem mul_quarter (x : Binary f) (n : Nat) :
    n * x.quarter = (n * x.quarters : ℕ) * 2 ^ (f.leastExponent - 2) := by
  rw [quarter_eq]
  push_cast
  ring

theorem Before.not_rounds (h : x.Before y) (hx : x.Rounds q) (hy : y.Rounds q) : False := by
  have hunit : (0 : ℚ) < 2 ^ (f.leastExponent - 2) := zpow_pos (by norm_num) _
  have hupper := hx.upper
  have hlower := hy.lower
  rw [mul_quarter] at hupper hlower
  rcases h.midpoints with hlt | ⟨hmid, hodd⟩
  · have hcast : (((4 * x.significand + 2) * x.quarters : ℕ) : ℚ) <
        (y.floorQuarters * y.quarters : ℕ) := Nat.cast_lt.mpr hlt
    have hscaled := mul_lt_mul_of_pos_right hcast hunit
    linarith
  · -- the number is the midpoint between the two, and both significands are even
    rw [← hmid] at hlower
    have heq := le_antisymm hupper hlower
    have hxe := hx.even (.inr (by rw [mul_quarter]; exact heq))
    have hye := hy.even (.inl (by rw [mul_quarter, ← hmid]; exact heq))
    omega

/-- No number rounds to two values of one sign. -/
theorem eq_of_rounds (hx : x.Rounds q) (hy : y.Rounds q) (hn : x.negative = y.negative) :
    x = y := by
  rcases before_trichotomy x y hn with hlt | heq | hgt
  · exact (hlt.not_rounds hx hy).elim
  · exact heq
  · exact (hgt.not_rounds hy hx).elim

end Binary
end Coalesce
