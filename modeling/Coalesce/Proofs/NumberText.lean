import Coalesce.Json.Token
import Coalesce.Proofs.Nearest
import Coalesce.Proofs.Numerals
/-! # Numbers are read back

The text of a number, followed by what may follow a value, is read back as one number of the same
sign: an integer as the same integer, a binary value as a decimal that rounds to it. Hence the text
tells the number. -/
namespace Coalesce

namespace Json
open Text

section Digits
variable {cs ds rest : List Char} {n : Nat}

theorem isDigit_eq (c : Char) : isDigit c = c.isDigit := by
  rw [Bool.eq_iff_iff, isDigit, Option.isSome_iff_exists]
  simp only [digit?_eq_some_iff, exists_and_left, exists_eq', and_true]

theorem isDigit_decimal : ∀ c ∈ decimal n, isDigit c = true := by
  intro c hc
  rw [isDigit_eq]
  exact Nat.isDigit_of_mem_toDigits (by norm_num) (by norm_num) hc

theorem isDigit_zeros : ∀ c ∈ List.replicate n '0', isDigit c = true := by
  intro c hc
  rw [List.eq_of_mem_replicate hc]
  rfl

theorem digitsValue_eq (h : ∀ c ∈ ds, isDigit c = true) :
    digitsValue ds = Nat.ofDigitChars 10 ds 0 := by
  rw [digitsValue, Nat.ofDigitChars_eq_foldl]
  refine List.foldl_ext _ _ _ fun n c hc => ?_
  have hdigit := h c hc
  rw [isDigit_eq] at hdigit
  rw [digit?_eq_some_iff.mpr ⟨hdigit, rfl⟩, Option.getD_some, Nat.mul_comm]

@[simp] theorem digitsValue_decimal (n : Nat) : digitsValue (decimal n) = n := by
  rw [digitsValue_eq isDigit_decimal]
  exact Nat.ofDigitChars_ten_toDigits

theorem foldl_digits (cs : List Char) (n : Nat) :
    cs.foldl (fun n c => n * 10 + (digit? c).getD 0) n = n * 10 ^ cs.length + digitsValue cs := by
  induction cs generalizing n with
  | nil => simp [digitsValue]
  | cons c cs ih =>
    rw [digitsValue, List.foldl_cons, List.foldl_cons, ih, ih, List.length_cons]
    ring

theorem digitsValue_append (cs ds : List Char) :
    digitsValue (cs ++ ds) = digitsValue cs * 10 ^ ds.length + digitsValue ds := by
  rw [digitsValue, List.foldl_append, foldl_digits]
  rfl

@[simp] theorem digitsValue_replicate_zero (n : Nat) :
    digitsValue (List.replicate n '0') = 0 := by
  induction n with
  | zero => rfl
  | succ n ih => rw [List.replicate_succ', digitsValue_append, ih]; rfl

/-- Only zero is written with a leading zero. -/
theorem head?_decimal (h : 0 < n) : (decimal n).head? ≠ some '0' := by
  induction n using Nat.strongRecOn with
  | ind n ih =>
    rw [decimal, Nat.toDigits_eq_if (by norm_num)]
    split
    · simp [Nat.digitChar_eq_zero, h.ne']
    · have hrest := ih (n / 10) (by omega) (by omega)
      rw [List.head?_append_of_ne_nil _ Nat.toDigits_ne_nil]
      exact hrest

def Stops (rest : List Char) : Prop := ∀ c ∈ rest.head?, isDigit c = false

theorem takeDigits_append (hds : ∀ c ∈ ds, isDigit c = true) (h : Stops rest) :
    takeDigits (ds ++ rest) = (ds, rest) := by
  rw [takeDigits, List.span_eq_takeWhile_dropWhile, List.takeWhile_append_of_pos hds,
    List.dropWhile_append_of_pos hds]
  cases rest with
  | nil => simp
  | cons c cs => simp [h c rfl]

theorem readDigitRun_append (hds : ∀ c ∈ ds, isDigit c = true) (hne : ds ≠ [])
    (h : Stops rest) : readDigitRun (ds ++ rest) = .ok (ds, rest) := by
  rw [readDigitRun, takeDigits_append hds h]
  cases ds with
  | nil => exact absurd rfl hne
  | cons d ds => rfl

theorem readFraction_append (hds : ∀ c ∈ ds, isDigit c = true) (hne : ds ≠ [])
    (h : Stops rest) : readFraction ('.' :: (ds ++ rest)) = .ok (ds, rest) :=
  readDigitRun_append hds hne h

theorem stops_point (cs : List Char) : Stops ('.' :: cs) := by
  rintro c ⟨⟩
  rfl

theorem readWhole_zero (h : Stops rest) : readWhole ('0' :: rest) = .ok (['0'], rest) := by
  cases rest with
  | nil => rfl
  | cons c cs => simp [readWhole, h c rfl]

theorem readWhole_append (hds : ∀ c ∈ ds, isDigit c = true) (hne : ds ≠ [])
    (hzero : ds.head? ≠ some '0') (h : Stops rest) :
    readWhole (ds ++ rest) = .ok (ds, rest) := by
  cases ds with
  | nil => exact absurd rfl hne
  | cons d ds =>
    have hd : d ≠ '0' := fun hd => hzero (by rw [hd]; rfl)
    rw [List.cons_append, readWhole]
    · exact readDigitRun_append hds hne h
    · rintro c rest heq
      simp_all

/-- The first digits of a positive number. -/
theorem readWhole_take {k : Nat} (hn : 0 < n) (hk : 0 < k) (h : Stops rest) :
    readWhole ((decimal n).take k ++ rest) = .ok ((decimal n).take k, rest) := by
  apply readWhole_append
  · exact fun c hc => isDigit_decimal c (List.mem_of_mem_take hc)
  · have hne : decimal n ≠ [] := Nat.toDigits_ne_nil
    simp [hne, hk.ne']
  · rw [List.head?_take, if_neg hk.ne']
    exact head?_decimal hn
  · exact h

/-- The digits after them, of which there is one at least. -/
theorem readFraction_drop {k : Nat} (hlt : k < (decimal n).length) (h : Stops rest) :
    readFraction ('.' :: ((decimal n).drop k ++ rest)) = .ok ((decimal n).drop k, rest) := by
  apply readFraction_append
  · exact fun c hc => isDigit_decimal c (List.mem_of_mem_drop hc)
  · rw [ne_eq, List.drop_eq_nil_iff]
    omega
  · exact h

end Digits

/-- Nothing follows that a number could go on with. -/
def Ends (rest : List Char) : Prop :=
  ∀ c ∈ rest.head?, isDigit c = false ∧ c ≠ '.' ∧ c ≠ 'e' ∧ c ≠ 'E'

def Closes (rest : List Char) : Prop := ∀ c ∈ rest.head?, c = ',' ∨ c = ']' ∨ c = '}'

theorem closes_nil : Closes [] := by
  rintro c ⟨⟩

section Parts
variable {cs cs' ds rest : List Char} {d : Decimal} {negative : Bool}

theorem Ends.stops (h : Ends rest) : Stops rest := fun c hc => (h c hc).1

theorem Ends.readFraction (h : Ends rest) : readFraction rest = .ok ([], rest) := by
  unfold Json.readFraction
  split
  · exact absurd rfl (h _ rfl).2.1
  · rfl

theorem Ends.readExponent (h : Ends rest) : readExponent rest = .ok (none, rest) := by
  unfold Json.readExponent
  simp only
  split
  · exact absurd rfl (h _ rfl).2.2.1
  · exact absurd rfl (h _ rfl).2.2.2
  · rfl

theorem Closes.ends (h : Closes rest) : Ends rest := by
  intro c hc
  rcases h c hc with rfl | rfl | rfl <;> decide

theorem Closes.stops (h : Closes rest) : Stops rest := h.ends.stops

theorem Closes.readExponent (h : Closes rest) : readExponent rest = .ok (none, rest) :=
  h.ends.readExponent

theorem readExponent_signed (lead : Int) (h : Stops rest) :
    readExponent ('e' :: (if lead < 0 then '-' else '+') :: decimal lead.natAbs ++ rest) =
      .ok (some lead, rest) := by
  have hrun : readDigitRun (decimal lead.natAbs ++ rest) = .ok (decimal lead.natAbs, rest) :=
    readDigitRun_append isDigit_decimal Nat.toDigits_ne_nil h
  split
  · rename_i hneg
    simp [Json.readExponent, hrun, abs_of_neg hneg]
  · rename_i hpos
    simp [Json.readExponent, hrun, abs_of_nonneg (not_lt.mp hpos)]

theorem readMagnitude_eq {whole fraction : List Char} {exponent : Option Int}
    (hwhole : readWhole cs = .ok (whole, cs')) (hfraction : readFraction cs' = .ok (fraction, ds))
    (hexponent : readExponent ds = .ok (exponent, rest)) :
    readMagnitude negative cs = .ok (⟨negative, whole, fraction, exponent⟩, rest) := by
  rw [readMagnitude, hwhole]
  simp only [bind, Except.bind, hfraction, hexponent, pure, Except.pure]

def NumberText.magnitude (t : NumberText) : ℚ :=
  Decimal.value ⟨digitsValue (t.whole ++ t.fraction), t.exponent.getD 0 - t.fraction.length⟩

/-- Reading `cs` as a magnitude leaves `rest` and spells out `d` with a fraction or an exponent. -/
def Spells (negative : Bool) (cs rest : List Char) (d : Decimal) : Prop :=
  ∃ t, readMagnitude negative cs = .ok (t, rest) ∧ t.negative = negative ∧
    t.isInteger = false ∧ t.magnitude = d.value

theorem spells_of {t : NumberText} {k : Nat} (h : readMagnitude negative cs = .ok (t, rest))
    (hn : t.negative = negative) (hi : t.isInteger = false)
    (hdigits : digitsValue (t.whole ++ t.fraction) = d.digits * 10 ^ k)
    (hexp : t.exponent.getD 0 - t.fraction.length = d.exponent - k) :
    Spells negative cs rest d := by
  refine ⟨t, h, hn, hi, ?_⟩
  rw [NumberText.magnitude, hdigits, hexp]
  exact Decimal.value_shift d.digits k d.exponent

/-- The digits, zeros up to the point, and a zero after it. -/
theorem spells_padded (hd : 0 < d.digits) (he : 0 ≤ d.exponent) (h : Closes rest) :
    Spells negative (decimal d.digits ++ List.replicate d.exponent.toNat '0' ++ '.' :: '0' :: rest)
      rest d := by
  have hdigits : ∀ c ∈ decimal d.digits ++ List.replicate d.exponent.toNat '0',
      isDigit c = true := List.forall_mem_append.mpr ⟨isDigit_decimal, isDigit_zeros⟩
  have hne : decimal d.digits ≠ [] := Nat.toDigits_ne_nil
  have hhead : (decimal d.digits ++ List.replicate d.exponent.toNat '0').head? ≠ some '0' := by
    rw [List.head?_append_of_ne_nil _ hne]
    exact head?_decimal hd
  have hwhole : readWhole _ = .ok (_, '.' :: '0' :: rest) :=
    readWhole_append hdigits (by simp [hne]) hhead (stops_point _)
  have hfraction : Json.readFraction ('.' :: '0' :: rest) = .ok (['0'], rest) :=
    readFraction_append (isDigit_zeros (n := 1)) (List.cons_ne_nil _ _) h.stops
  refine spells_of (readMagnitude_eq hwhole hfraction h.readExponent) rfl rfl
    (k := d.exponent.toNat + 1) ?_ ?_
  · have hlast : digitsValue ['0'] = 0 := rfl
    simp only [digitsValue_append, digitsValue_decimal, digitsValue_replicate_zero, hlast,
      List.length_replicate, List.length_singleton]
    ring
  · simp only [Option.getD_none, List.length_singleton]
    omega

/-- The point stands among the digits. -/
theorem spells_parted {k : Nat} (hd : 0 < d.digits) (hk : 0 < k)
    (hlt : k < (decimal d.digits).length)
    (hexp : d.exponent = (k : Int) - (decimal d.digits).length) (h : Closes rest) :
    Spells negative ((decimal d.digits).take k ++ '.' :: ((decimal d.digits).drop k ++ rest))
      rest d := by
  have hwhole : readWhole _ = .ok (_, '.' :: ((decimal d.digits).drop k ++ rest)) :=
    readWhole_take hd hk (stops_point _)
  have hfraction := readFraction_drop hlt h.stops
  refine spells_of (readMagnitude_eq hwhole hfraction h.readExponent) rfl ?_ (k := 0) ?_ ?_
  · simp [NumberText.isInteger, hlt]
  · simp
  · simp only [Option.getD_none, List.length_drop]
    omega

/-- Zeros before the point and between it and the digits. -/
theorem spells_small (negative : Bool) {z : Nat}
    (hexp : d.exponent = -(z + (decimal d.digits).length : ℕ)) (h : Closes rest) :
    Spells negative ('0' :: '.' :: (List.replicate z '0' ++ decimal d.digits ++ rest)) rest d := by
  have hdigits : ∀ c ∈ List.replicate z '0' ++ decimal d.digits, isDigit c = true :=
    List.forall_mem_append.mpr ⟨isDigit_zeros, isDigit_decimal⟩
  have hne : List.replicate z '0' ++ decimal d.digits ≠ [] :=
    List.append_ne_nil_of_right_ne_nil _ Nat.toDigits_ne_nil
  have hwhole := readWhole_zero (stops_point (List.replicate z '0' ++ decimal d.digits ++ rest))
  have hfraction := readFraction_append hdigits hne h.stops
  refine spells_of (readMagnitude_eq hwhole hfraction h.readExponent) rfl ?_ (k := 0) ?_ ?_
  · rw [NumberText.isInteger, List.isEmpty_eq_false_iff.mpr hne, Bool.false_and]
  · have hzeros : digitsValue ('0' :: List.replicate z '0') = 0 :=
      digitsValue_replicate_zero (z + 1)
    rw [← List.append_assoc, digitsValue_append, List.singleton_append, hzeros]
    simp
  · simp only [Option.getD_none, List.length_append, List.length_replicate, hexp]
    omega

/-- The digits after the first, if there are any, with a point before them. -/
theorem readFraction_others (n : Nat) (cs : List Char) :
    Json.readFraction ((if (decimal n).length ≤ 1 then [] else '.' :: (decimal n).drop 1) ++
      'e' :: cs) = .ok ((decimal n).drop 1, 'e' :: cs) := by
  have hstops : Stops ('e' :: cs) := by
    rintro c ⟨⟩
    rfl
  split
  · rename_i hone
    rw [List.drop_eq_nil_of_le hone]
    rfl
  · rename_i hmore
    exact readFraction_drop (by omega) hstops

/-- One digit, the others after a point, and the power of ten of the first. -/
theorem spells_scientific (negative : Bool) (hd : 0 < d.digits) {lead : Int}
    (hlead : lead = d.exponent + (decimal d.digits).length - 1) (h : Closes rest) :
    Spells negative ((decimal d.digits).take 1 ++
      ((if (decimal d.digits).length ≤ 1 then [] else '.' :: (decimal d.digits).drop 1) ++
      'e' :: (if lead < 0 then '-' else '+') :: (decimal lead.natAbs ++ rest))) rest d := by
  have hpos : 0 < (decimal d.digits).length := List.length_pos_of_ne_nil Nat.toDigits_ne_nil
  have hstops : ∀ cs, Stops
      ((if (decimal d.digits).length ≤ 1 then [] else '.' :: (decimal d.digits).drop 1) ++
        'e' :: cs) := by
    intro cs
    split <;> rintro c ⟨⟩ <;> rfl
  have hwhole := readWhole_take hd Nat.one_pos
    (hstops ((if lead < 0 then '-' else '+') :: (decimal lead.natAbs ++ rest)))
  have hfraction := readFraction_others d.digits
    ((if lead < 0 then '-' else '+') :: (decimal lead.natAbs ++ rest))
  refine spells_of (readMagnitude_eq hwhole hfraction (readExponent_signed lead h.stops)) rfl ?_
    (k := 0) ?_ ?_
  · simp [NumberText.isInteger]
  · rw [List.take_append_drop, digitsValue_decimal, pow_zero, mul_one]
  · simp only [Option.getD_some, List.length_drop]
    omega

/-- Every positive decimal is read back from its text, in whichever form it is written. -/
theorem render_spells (negative : Bool) (layout : NumberLayout) (hd : 0 < d.digits)
    (h : Closes rest) : Spells negative (layout.render d ++ rest) rest d := by
  have hpos : 0 < (decimal d.digits).length := List.length_pos_of_ne_nil Nat.toDigits_ne_nil
  unfold NumberLayout.render
  simp only
  split
  · split
    · rename_i he
      rw [List.append_assoc]
      exact spells_padded hd he h
    · split
      · rename_i he hlead
        rw [List.append_assoc]
        refine spells_parted hd (Nat.succ_pos _) ?_ ?_ h
        all_goals omega
      · rename_i he hlead
        have hexp : d.exponent = -((-(d.exponent + (decimal d.digits).length - 1) - 1).toNat +
            (decimal d.digits).length : ℕ) := by omega
        have hread := spells_small negative hexp h
        simpa using hread
  · have hread := spells_scientific negative hd rfl h
    simpa using hread

theorem readNumberText_sign {r : NumberText × List Char}
    (h : readMagnitude negative cs = .ok r) :
    readNumberText (if negative then '-' :: cs else cs) = .ok r := by
  cases negative with
  | true => exact h
  | false =>
    rw [if_neg (by decide), readNumberText]
    · exact h
    · -- a minus sign is no beginning of a magnitude
      rintro cs rfl
      cases h

def NumberText.Denotes (t : NumberText) : JsonNumber → Prop
  | .integer n => t.isInteger = true ∧ t.negative = decide (n < 0) ∧ t.magnitude = n.natAbs
  | .real x _ => t.isInteger = false ∧ t.negative = x.negative ∧ x.Rounds t.magnitude

theorem NumberText.Denotes.unique {t : NumberText} {m n : JsonNumber} (hm : t.Denotes m)
    (hn : t.Denotes n) : m = n := by
  cases m with
  | integer i =>
    cases n with
    | integer j =>
      obtain ⟨-, hi, habs⟩ := hm
      obtain ⟨-, hj, habs'⟩ := hn
      have hsame : i.natAbs = j.natAbs := by exact_mod_cast habs.symm.trans habs'
      have hsign : i < 0 ↔ j < 0 := by
        rw [← decide_eq_decide, ← hi, ← hj]
      have hij : i = j := by omega
      rw [hij]
    | real y hy => exact absurd (hm.1.symm.trans hn.1) (by decide)
  | real x hx =>
    cases n with
    | integer j => exact absurd (hm.1.symm.trans hn.1) (by decide)
    | real y hy =>
      obtain ⟨-, hsign, hrounds⟩ := hm
      obtain ⟨-, hsign', hrounds'⟩ := hn
      have hxy : x = y := Binary.eq_of_rounds hrounds hrounds' (hsign.symm.trans hsign')
      subst hxy
      rfl

theorem readMagnitude_decimal (negative : Bool) (n : Nat) (h : Ends rest) :
    readMagnitude negative (decimal n ++ rest) = .ok (⟨negative, decimal n, [], none⟩, rest) := by
  have hwhole : readWhole (decimal n ++ rest) = .ok (decimal n, rest) := by
    rcases Nat.eq_zero_or_pos n with rfl | hn
    · exact readWhole_zero h.stops
    · exact readWhole_append isDigit_decimal Nat.toDigits_ne_nil (head?_decimal hn) h.stops
  exact readMagnitude_eq hwhole h.readFraction h.readExponent

theorem readNumberText_integer (n : Int) (h : Closes rest) :
    ∃ t, readNumberText (renderInteger n ++ rest) = .ok (t, rest) ∧ t.Denotes (.integer n) := by
  have hread := readNumberText_sign (readMagnitude_decimal (decide (n < 0)) n.natAbs h.ends)
  have htext : renderInteger n ++ rest =
      if decide (n < 0) then '-' :: (decimal n.natAbs ++ rest) else decimal n.natAbs ++ rest := by
    unfold renderInteger
    split <;> simp_all
  rw [htext]
  refine ⟨_, hread, rfl, rfl, ?_⟩
  simp [NumberText.magnitude, Decimal.value]

/-- The text of a binary value of any format is read back with its sign, as a number that rounds to
it and is not written as an integer. -/
theorem readNumberText_renderBinary {f : FloatFormat} (layout : NumberLayout) (x : Binary f)
    (h : Closes rest) :
    ∃ t, readNumberText (layout.renderBinary x ++ rest) = .ok (t, rest) ∧
      t.isInteger = false ∧ t.negative = x.negative ∧ x.Rounds t.magnitude := by
  have hmagnitude : ∃ t, readMagnitude x.negative ((if x.significand = 0 then ['0', '.', '0']
      else layout.render x.shortest) ++ rest) = .ok (t, rest) ∧
      t.isInteger = false ∧ t.negative = x.negative ∧ x.Rounds t.magnitude := by
    split
    · rename_i hzero
      refine ⟨⟨x.negative, ['0'], ['0'], none⟩, ?_, rfl, rfl, ?_⟩
      · exact readMagnitude_eq (readWhole_zero (stops_point _))
          (readFraction_append (isDigit_zeros (n := 1)) (List.cons_ne_nil _ _) h.stops)
          h.readExponent
      · have hvalue : NumberText.magnitude ⟨x.negative, ['0'], ['0'], none⟩ = 0 := by
          have hdigits : digitsValue ['0', '0'] = 0 := rfl
          simp [NumberText.magnitude, Decimal.value, hdigits]
        rw [hvalue]
        exact Binary.rounds_zero hzero
    · rename_i hne
      obtain ⟨t, hread, hsign, hreal, hvalue⟩ :=
        render_spells x.negative layout (Binary.digits_shortest_pos hne) h
      exact ⟨t, hread, hreal, hsign, hvalue ▸ Binary.rounds_shortest hne⟩
  obtain ⟨t, hread, hdenotes⟩ := hmagnitude
  have hsigned : ∀ cs : List Char, (if x.negative then '-' :: cs else cs) ++ rest =
      if x.negative then '-' :: (cs ++ rest) else cs ++ rest := by
    intro cs
    split <;> rfl
  refine ⟨t, ?_, hdenotes⟩
  rw [NumberLayout.renderBinary, hsigned]
  exact readNumberText_sign hread

/-- Two values of one format have one text only if they are the same. -/
theorem renderBinary_inj {f : FloatFormat} {layout : NumberLayout} {x y : Binary f}
    (h : layout.renderBinary x = layout.renderBinary y) : x = y := by
  obtain ⟨t, hread, -, hsign, hrounds⟩ := readNumberText_renderBinary layout x closes_nil
  obtain ⟨t', hread', -, hsign', hrounds'⟩ := readNumberText_renderBinary layout y closes_nil
  rw [h, hread'] at hread
  obtain ⟨rfl, -⟩ := Prod.mk.inj (Except.ok.inj hread)
  exact Binary.eq_of_rounds hrounds hrounds' (hsign.symm.trans hsign')

/-- The text of a number is read back to that number's end, and denotes no other. -/
theorem readNumberText_render (n : JsonNumber) (h : Closes rest) :
    ∃ t, readNumberText (renderNumber n ++ rest) = .ok (t, rest) ∧ t.Denotes n := by
  cases n with
  | integer n => exact readNumberText_integer n h
  | real x hx => exact readNumberText_renderBinary .double x h

theorem renderNumber_inj {m n : JsonNumber} {rest' : List Char} (h : Closes rest)
    (h' : Closes rest') (heq : renderNumber m ++ rest = renderNumber n ++ rest') :
    m = n ∧ rest = rest' := by
  obtain ⟨t, hread, hdenotes⟩ := readNumberText_render m h
  obtain ⟨t', hread', hdenotes'⟩ := readNumberText_render n h'
  rw [heq, hread'] at hread
  obtain ⟨rfl, rfl⟩ := Prod.mk.inj (Except.ok.inj hread)
  exact ⟨hdenotes.unique hdenotes', rfl⟩

end Parts
end Json
end Coalesce
