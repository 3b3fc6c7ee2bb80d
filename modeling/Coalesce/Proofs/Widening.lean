import Coalesce.Proofs.Nearest

/-! # Values of a wider format

A magnitude whose bits fit into the fraction of a format, and whose exponent the format has, is
taken over without rounding. So a finite value of single precision keeps its number in double
precision, and no two of them become one. -/
namespace Coalesce.Binary
variable {f g : FloatFormat} {x y : Binary f}

def magnitude (x : Binary f) : ℚ := x.significand * 2 ^ x.exponent

theorem magnitude_eq_exactDecimal (x : Binary f) : x.magnitude = x.exactDecimal.value := by
  rw [value_exactDecimal, magnitude, quarter, zpow_sub₀ (by norm_num)]
  ring

/-- A magnitude is among the numbers that round to it. -/
theorem rounds_magnitude (x : Binary f) : x.Rounds x.magnitude := by
  by_cases h : x.significand = 0
  · have hzero : x.magnitude = 0 := by simp [magnitude, h]
    rw [hzero]
    exact rounds_zero h
  · rw [magnitude_eq_exactDecimal]
    exact rounds_exactDecimal h

/-- Values of one format and sign are told by their numbers. -/
theorem eq_of_magnitude_eq (h : x.magnitude = y.magnitude) (hn : x.negative = y.negative) :
    x = y :=
  eq_of_rounds x.rounds_magnitude (h ▸ y.rounds_magnitude) hn

/-- The biased exponent and the fraction of a code that has room. -/
theorem ofCode_eq {code : Nat} (negative : Bool)
    (h : code / Nat.pow 2 f.fractionBits < f.top) :
    (ofCode negative code : Binary f) =
      ⟨negative, code / Nat.pow 2 f.fractionBits, code % Nat.pow 2 f.fractionBits, h.le,
        Nat.mod_lt _ (Nat.two_pow_pos _)⟩ := by
  rw [ofCode, dif_pos h.le, if_neg h.ne]

/-- A code that is made of an exponent and of a significand with its leading bit. -/
theorem ofCode_significand (negative : Bool) {shift m : Nat}
    (hlow : Nat.pow 2 f.fractionBits ≤ m) (hhigh : m < 2 * Nat.pow 2 f.fractionBits)
    (htop : shift + 1 < f.top) :
    (ofCode negative (shift * Nat.pow 2 f.fractionBits + m) : Binary f).negative = negative ∧
      (ofCode negative (shift * Nat.pow 2 f.fractionBits + m) : Binary f).isFinite = true ∧
      (ofCode negative (shift * Nat.pow 2 f.fractionBits + m) : Binary f).significand = m ∧
      (ofCode negative (shift * Nat.pow 2 f.fractionBits + m) : Binary f).exponent =
        f.leastExponent + shift := by
  have hpos : 0 < Nat.pow 2 f.fractionBits := Nat.two_pow_pos _
  obtain ⟨r, rfl⟩ : ∃ r, m = Nat.pow 2 f.fractionBits + r := ⟨_, (Nat.add_sub_of_le hlow).symm⟩
  have hr : r < Nat.pow 2 f.fractionBits := by omega
  have hcode : shift * Nat.pow 2 f.fractionBits + (Nat.pow 2 f.fractionBits + r) =
      r + Nat.pow 2 f.fractionBits * (shift + 1) := by ring
  have hdiv : (shift * Nat.pow 2 f.fractionBits + (Nat.pow 2 f.fractionBits + r)) /
      Nat.pow 2 f.fractionBits = shift + 1 := by
    rw [hcode, Nat.add_mul_div_left _ _ hpos, Nat.div_eq_of_lt hr, Nat.zero_add]
  have hmod : (shift * Nat.pow 2 f.fractionBits + (Nat.pow 2 f.fractionBits + r)) %
      Nat.pow 2 f.fractionBits = r := by
    rw [hcode, Nat.add_mul_mod_self_left, Nat.mod_eq_of_lt hr]
  rw [ofCode_eq negative (by rw [hdiv]; exact htop)]
  refine ⟨rfl, ?_, ?_, ?_⟩
  · simp only [isFinite, hdiv, decide_eq_true_eq]
    exact htop
  · simp only [significand, hdiv, hmod]
    rw [if_neg (Nat.succ_ne_zero shift)]
  · simp only [exponent, hdiv, Nat.add_sub_cancel]

theorem log2_mul_pow {m : Nat} (hm : m ≠ 0) (n : Nat) :
    Nat.log2 (m * Nat.pow 2 n) = Nat.log2 m + n := by
  have hpos : 0 < Nat.pow 2 n := Nat.two_pow_pos n
  rw [Nat.log2_eq_iff (Nat.mul_ne_zero hm hpos.ne')]
  constructor
  · rw [Nat.pow_add]
    exact Nat.mul_le_mul_right _ (Nat.log2_self_le hm)
  · rw [show Nat.log2 m + n + 1 = Nat.log2 m + 1 + n by omega, Nat.pow_add]
    exact Nat.mul_lt_mul_of_pos_right Nat.lt_log2_self hpos

section Exact
variable {m : Nat} {e : Int}

def unit (g : FloatFormat) (m : Nat) (e : Int) : Int := Nat.log2 m + e - g.fractionBits

theorem unitExponent_eq (hm : m ≠ 0) (hleast : g.leastExponent ≤ unit g m e) :
    unitExponent g (m * Nat.pow 2 e.toNat) (Nat.pow 2 (-e).toNat) = unit g m e := by
  have hnum := log2_mul_pow hm e.toNat
  have hden : Nat.log2 (Nat.pow 2 (-e).toNat) = (-e).toNat := Nat.log2_two_pow
  have hexp : ((Nat.log2 (m * Nat.pow 2 e.toNat) : Int) - Nat.log2 (Nat.pow 2 (-e).toNat) -
      g.fractionBits) = unit g m e := by
    rw [hnum, hden, unit]
    omega
  -- the leading bit is in its place, so the quotient is not too short
  have hlong : ¬ m * Nat.pow 2 e.toNat * Nat.pow 2 (-unit g m e).toNat <
      Nat.pow 2 (-e).toNat * Nat.pow 2 (unit g m e).toNat * Nat.pow 2 g.fractionBits := by
    have hbits : (-e).toNat + (unit g m e).toNat + g.fractionBits =
        Nat.log2 m + (e.toNat + (-unit g m e).toNat) := by
      have hunit : unit g m e = Nat.log2 m + e - g.fractionBits := rfl
      omega
    have hle := Nat.mul_le_mul_right (2 ^ (e.toNat + (-unit g m e).toNat)) (Nat.log2_self_le hm)
    rw [← Nat.pow_add, ← hbits] at hle
    simpa only [Nat.pow_eq, Nat.pow_add, Nat.mul_assoc, not_lt] using hle
  rw [unitExponent]
  simp only [hexp]
  rw [if_neg hlong]
  exact max_eq_left hleast

theorem roundQuotient_eq (hbits : Nat.log2 m ≤ g.fractionBits) :
    roundQuotient (m * Nat.pow 2 e.toNat) (Nat.pow 2 (-e).toNat) (unit g m e) =
      m * Nat.pow 2 (g.fractionBits - Nat.log2 m) := by
  have hpos : 0 < Nat.pow 2 (-e).toNat * Nat.pow 2 (unit g m e).toNat :=
    Nat.mul_pos (Nat.two_pow_pos _) (Nat.two_pow_pos _)
  have hscale : m * Nat.pow 2 e.toNat * Nat.pow 2 (-unit g m e).toNat =
      m * Nat.pow 2 (g.fractionBits - Nat.log2 m) *
        (Nat.pow 2 (-e).toNat * Nat.pow 2 (unit g m e).toNat) := by
    have hexp : e.toNat + (-unit g m e).toNat =
        g.fractionBits - Nat.log2 m + ((-e).toNat + (unit g m e).toNat) := by
      have hunit : unit g m e = Nat.log2 m + e - g.fractionBits := rfl
      omega
    simp only [Nat.pow_eq, Nat.mul_assoc]
    rw [← Nat.pow_add, ← Nat.pow_add, ← Nat.pow_add, hexp]
  rw [roundQuotient]
  simp only [hscale]
  rw [Nat.mul_mod_left, Nat.mul_div_cancel _ hpos, if_pos (.inl (by simp))]

/-- A number whose bits fit is taken over as it is. -/
theorem ofScaled_exact (negative : Bool) (hm : m ≠ 0) (hbits : Nat.log2 m ≤ g.fractionBits)
    (hleast : g.leastExponent ≤ unit g m e)
    (htop : unit g m e - g.leastExponent + 1 < g.top) :
    (ofScaled negative m e : Binary g).negative = negative ∧
      (ofScaled negative m e : Binary g).isFinite = true ∧
      (ofScaled negative m e : Binary g).magnitude = m * 2 ^ e := by
  have hnum : m * Nat.pow 2 e.toNat ≠ 0 := Nat.mul_ne_zero hm (Nat.two_pow_pos _).ne'
  have hlow : Nat.pow 2 g.fractionBits ≤ m * Nat.pow 2 (g.fractionBits - Nat.log2 m) := by
    calc 2 ^ g.fractionBits = 2 ^ Nat.log2 m * 2 ^ (g.fractionBits - Nat.log2 m) := by
          rw [← Nat.pow_add, Nat.add_sub_of_le hbits]
      _ ≤ m * 2 ^ (g.fractionBits - Nat.log2 m) := Nat.mul_le_mul_right _ (Nat.log2_self_le hm)
  have hhigh : m * Nat.pow 2 (g.fractionBits - Nat.log2 m) < 2 * Nat.pow 2 g.fractionBits := by
    calc m * 2 ^ (g.fractionBits - Nat.log2 m)
        < 2 ^ (Nat.log2 m + 1) * 2 ^ (g.fractionBits - Nat.log2 m) :=
          Nat.mul_lt_mul_of_pos_right Nat.lt_log2_self (Nat.two_pow_pos _)
      _ = 2 * 2 ^ g.fractionBits := by
          rw [← Nat.pow_add, show Nat.log2 m + 1 + (g.fractionBits - Nat.log2 m) =
            g.fractionBits + 1 by omega, Nat.pow_succ']
  have hshift : (unit g m e - g.leastExponent).toNat + 1 < g.top := by omega
  obtain ⟨hneg, hfinite, hsig, hexp⟩ := ofCode_significand negative hlow hhigh hshift
  have hvalue : (ofScaled negative m e : Binary g) =
      ofCode negative ((unit g m e - g.leastExponent).toNat * Nat.pow 2 g.fractionBits +
        m * Nat.pow 2 (g.fractionBits - Nat.log2 m)) := by
    rw [ofScaled, ofRatio, if_neg hnum]
    simp only [unitExponent_eq hm hleast, roundQuotient_eq hbits]
  rw [hvalue]
  refine ⟨hneg, hfinite, ?_⟩
  have hunit : g.leastExponent + ((unit g m e - g.leastExponent).toNat : Int) =
      e - (g.fractionBits - Nat.log2 m : ℕ) := by
    have hdef : unit g m e = Nat.log2 m + e - g.fractionBits := rfl
    omega
  rw [magnitude, hsig, hexp, hunit, zpow_sub₀ (by norm_num), zpow_natCast, Nat.pow_eq]
  push_cast
  field_simp

end Exact

theorem log2_significand_le (x : Binary f) : Nat.log2 x.significand ≤ f.fractionBits := by
  by_cases h : x.significand = 0
  · simp [h]
  · have hlt := x.significand_lt
    rw [Nat.pow_eq, ← Nat.pow_succ'] at hlt
    exact Nat.lt_succ_iff.mp ((Nat.log2_lt h).mpr hlt)

/-- In double precision a finite single is the same number. -/
theorem convert_single (x : Single) (h : x.isFinite = true) :
    (x.convert .double).negative = x.negative ∧ (x.convert .double).isFinite = true ∧
      (x.convert .double).magnitude = x.magnitude := by
  rw [convert, if_pos h]
  by_cases hm : x.significand = 0
  · rw [ofScaled, ofRatio, if_pos (by simp [hm])]
    refine ⟨rfl, rfl, ?_⟩
    rw [magnitude, magnitude, hm]
    simp [zero, ofCode, significand, FloatFormat.double, FloatFormat.top]
  · have hbits := x.log2_significand_le
    have hbiased : x.biased < 255 := of_decide_eq_true h
    have hexp : x.exponent = -149 + ((x.biased - 1 : ℕ) : Int) := rfl
    have hfraction : FloatFormat.single.fractionBits = 23 := rfl
    have hwide : FloatFormat.double.fractionBits = 52 := rfl
    have hleast : FloatFormat.double.leastExponent = -1074 := rfl
    have htop : FloatFormat.double.top = 2047 := rfl
    refine ofScaled_exact x.negative hm ?_ ?_ ?_
    all_goals simp only [unit, hwide, hleast, htop, hfraction, hexp] at *
    all_goals omega

theorem convert_single_inj {x y : Single} (hx : x.isFinite = true) (hy : y.isFinite = true)
    (h : x.convert .double = y.convert .double) : x = y := by
  obtain ⟨hxn, -, hxm⟩ := convert_single x hx
  obtain ⟨hyn, -, hym⟩ := convert_single y hy
  refine eq_of_magnitude_eq ?_ ?_
  · rw [← hxm, ← hym, h]
  · rw [← hxn, ← hyn, h]

end Coalesce.Binary
