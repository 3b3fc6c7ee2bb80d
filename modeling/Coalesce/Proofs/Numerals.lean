import Coalesce.Text.Blank
import Coalesce.Text.Digits
import Mathlib.Data.List.DropRight
import Mathlib.Data.List.TakeWhile

/-! # Trimmed texts and numerals

What is left of a text without the blanks at its ends, and which texts stand for a number, said
without the functions that trim and read. Both functions do as is said here. -/
namespace Coalesce.Text

/-- Blanks at both ends of `s` are taken away, as many as there are, and `t` is left. -/
structure TrimsTo (s t : String) : Prop where
  parts : ∃ before after, s.toList = before ++ (t.toList ++ after) ∧
    (∀ c ∈ before, isBlank c = true) ∧ ∀ c ∈ after, isBlank c = true
  head : ∀ c ∈ t.toList.head?, isBlank c = false
  last : ∀ c ∈ t.toList.getLast?, isBlank c = false

def IsBlankText (s : String) : Prop := ∀ c ∈ s.toList, isBlank c = true

section Trim
variable {cs ds before after : List Char} {s t : String}

theorem trimChars_eq (cs : List Char) :
    trimChars cs = (cs.dropWhile isBlank).rdropWhile isBlank := rfl

theorem dropWhile_blanks (h : ∀ c ∈ ds.head?, isBlank c = false) : ds.dropWhile isBlank = ds := by
  cases ds with
  | nil => rfl
  | cons c ds => exact List.dropWhile_cons_of_neg (by simpa using h c rfl)

theorem rdropWhile_blanks (h : ∀ c ∈ ds.getLast?, isBlank c = false) :
    ds.rdropWhile isBlank = ds := by
  rw [List.rdropWhile_eq_self_iff]
  intro hne
  simpa using h _ (List.getLast?_eq_some_getLast hne)

theorem rdropWhile_append_blanks (h : ∀ c ∈ after, isBlank c = true) :
    (ds ++ after).rdropWhile isBlank = ds.rdropWhile isBlank := by
  have hreverse : ∀ c ∈ after.reverse, isBlank c = true := by simpa using h
  rw [List.rdropWhile, List.reverse_append, List.dropWhile_append_of_pos hreverse, List.rdropWhile]

/-- Nothing is left of blanks only. -/
theorem trimChars_eq_nil_iff : trimChars cs = [] ↔ ∀ c ∈ cs, isBlank c = true := by
  rw [trimChars_eq, List.rdropWhile_eq_nil_iff]
  constructor
  · intro h c hc
    rw [← List.takeWhile_append_dropWhile (p := isBlank) (l := cs)] at hc
    rcases List.mem_append.mp hc with hc | hc
    · exact List.mem_takeWhile_imp hc
    · exact h c hc
  · intro h c hc
    exact h c ((List.dropWhile_suffix isBlank).subset hc)

theorem trim_eq_empty_iff : trim s = "" ↔ IsBlankText s := by
  rw [← String.toList_inj, trim, String.toList_ofList]
  exact trimChars_eq_nil_iff

theorem trimChars_of_parts (hbefore : ∀ c ∈ before, isBlank c = true)
    (hafter : ∀ c ∈ after, isBlank c = true) (hhead : ∀ c ∈ ds.head?, isBlank c = false)
    (hlast : ∀ c ∈ ds.getLast?, isBlank c = false) : trimChars (before ++ (ds ++ after)) = ds := by
  cases ds with
  | nil =>
    rw [trimChars_eq_nil_iff]
    intro c hc
    rcases List.mem_append.mp hc with hc | hc
    · exact hbefore c hc
    · exact hafter c hc
  | cons d ds =>
    have hkept : (d :: ds ++ after).dropWhile isBlank = d :: ds ++ after :=
      dropWhile_blanks (by simpa using hhead)
    rw [trimChars_eq, List.dropWhile_append_of_pos hbefore, hkept, rdropWhile_append_blanks hafter,
      rdropWhile_blanks hlast]

theorem trim_trimsTo (s : String) : TrimsTo s (trim s) := by
  have hchars : (trim s).toList = (s.toList.dropWhile isBlank).rdropWhile isBlank :=
    String.toList_ofList
  obtain ⟨after, hafter⟩ := List.rdropWhile_prefix isBlank (s.toList.dropWhile isBlank)
  have hhead := List.head?_dropWhile_not isBlank s.toList
  constructor
  case parts =>
    refine ⟨s.toList.takeWhile isBlank, after, ?_, fun c hc => List.mem_takeWhile_imp hc, ?_⟩
    · rw [hchars, hafter, List.takeWhile_append_dropWhile]
    · intro c hc
      have hdropped : after = ((s.toList.dropWhile isBlank).reverse.takeWhile isBlank).reverse := by
        refine List.append_cancel_left (hafter.trans ?_)
        rw [List.rdropWhile, ← List.reverse_append, List.takeWhile_append_dropWhile,
          List.reverse_reverse]
      rw [hdropped, List.mem_reverse] at hc
      exact List.mem_takeWhile_imp hc
  case head =>
    intro c hc
    rw [hchars] at hc
    have hfirst : (s.toList.dropWhile isBlank).head? = some c := by
      rw [← hafter, List.head?_append, Option.mem_def.mp hc]
      rfl
    rw [hfirst] at hhead
    exact hhead
  case last =>
    intro c hc
    rw [hchars] at hc
    obtain ⟨hne, rfl⟩ := List.mem_getLast?_eq_getLast hc
    simpa using List.rdropWhile_last_not isBlank _ hne

theorem trim_eq_iff : trim s = t ↔ TrimsTo s t := by
  constructor
  · rintro rfl
    exact trim_trimsTo s
  · rintro ⟨⟨before, after, hs, hbefore, hafter⟩, hhead, hlast⟩
    rw [trim, hs, trimChars_of_parts hbefore hafter hhead hlast]
    exact String.ofList_toList

end Trim

/-- The text stands for the number: a plus sign or none, and then the number's digits, with any
number of zeros in front. -/
def IsNumeral (s : String) (n : Nat) : Prop :=
  ∃ digits, digits ≠ [] ∧ (∀ c ∈ digits, c.isDigit = true) ∧
    (s.toList = digits ∨ s.toList = '+' :: digits) ∧ Nat.ofDigitChars 10 digits 0 = n

section Numerals
variable {cs digits : List Char} {c : Char} {s : String} {value n : Nat}

theorem digit?_eq_some_iff {d : Nat} :
    digit? c = some d ↔ c.isDigit = true ∧ c.toNat - '0'.toNat = d := by
  have hrange : ('0' ≤ c ∧ c ≤ '9') ↔ c.isDigit = true := by
    rw [Char.isDigit_iff_toNat, Char.le_def, Char.le_def, UInt32.le_iff_toNat_le,
      UInt32.le_iff_toNat_le]
    rfl
  by_cases h : '0' ≤ c ∧ c ≤ '9'
  · rw [digit?, if_pos h, Option.some.injEq, ← hrange]
    exact ⟨fun hd => ⟨h, hd⟩, fun hd => hd.2⟩
  · rw [digit?, if_neg h, ← hrange]
    exact ⟨nofun, fun hd => absurd hd.1 h⟩

theorem le_ofDigitChars (cs : List Char) (value : Nat) :
    value ≤ Nat.ofDigitChars 10 cs value := by
  induction cs generalizing value with
  | nil => rw [Nat.ofDigitChars_nil]
  | cons c cs ih =>
    rw [Nat.ofDigitChars_cons]
    have hrest := ih (10 * value + (c.toNat - '0'.toNat))
    omega

/-- The number does not get smaller with more digits, so it stays below the bound up to its end if
it is below it there. -/
theorem readDigits_eq_ok_iff (h : value < UInt64.size) : readDigits value cs = .ok n ↔
    (∀ c ∈ cs, c.isDigit = true) ∧ Nat.ofDigitChars 10 cs value = n ∧ n < UInt64.size := by
  induction cs generalizing value with
  | nil =>
    rw [readDigits, Except.ok.injEq, Nat.ofDigitChars_nil]
    refine ⟨?_, fun hn => hn.2.1⟩
    rintro rfl
    exact ⟨nofun, rfl, h⟩
  | cons c cs ih =>
    rw [List.forall_mem_cons, Nat.ofDigitChars_cons, Nat.mul_comm 10 value]
    cases hd : digit? c with
    | none =>
      have hnot : ¬c.isDigit = true := by
        intro hc
        rw [digit?_eq_some_iff.mpr ⟨hc, rfl⟩] at hd
        cases hd
      simp [readDigits, hd, hnot]
    | some d =>
      obtain ⟨hc, rfl⟩ := digit?_eq_some_iff.mp hd
      by_cases hlt : value * 10 + (c.toNat - '0'.toNat) < UInt64.size
      · simp only [readDigits, hd, if_pos hlt, ih hlt, hc, true_and]
      · simp only [readDigits, hd, if_neg hlt, reduceCtorEq, false_iff]
        rintro ⟨-, hn, hsmall⟩
        have hle := le_ofDigitChars cs (value * 10 + (c.toNat - '0'.toNat))
        omega

theorem readUnsigned_eq_ok_iff : readUnsigned cs = .ok n ↔
    (∃ digits, digits ≠ [] ∧ (∀ c ∈ digits, c.isDigit = true) ∧
      (cs = digits ∨ cs = '+' :: digits) ∧ Nat.ofDigitChars 10 digits 0 = n) ∧
      n < UInt64.size := by
  have hzero : 0 < UInt64.size := by decide
  have hplus : '+'.isDigit = false := by decide
  constructor
  · intro h
    unfold readUnsigned at h
    split at h
    · cases h
    · cases h
    · next digits hne =>
      obtain ⟨hdigits, hn, hlt⟩ := (readDigits_eq_ok_iff hzero).mp h
      exact ⟨⟨digits, hne, hdigits, .inr rfl, hn⟩, hlt⟩
    · next hne _ _ =>
      obtain ⟨hdigits, hn, hlt⟩ := (readDigits_eq_ok_iff hzero).mp h
      exact ⟨⟨cs, hne, hdigits, .inl rfl, hn⟩, hlt⟩
  · rintro ⟨⟨digits, hne, hdigits, hcs, hn⟩, hlt⟩
    have hread := (readDigits_eq_ok_iff hzero).mpr ⟨hdigits, hn, hlt⟩
    rcases hcs with rfl | rfl
    · unfold readUnsigned
      split
      · exact absurd rfl hne
      · simp [hplus] at hdigits
      · simp [hplus] at hdigits
      · exact hread
    · cases digits with
      | nil => exact absurd rfl hne
      | cons c digits => exact hread

theorem unsigned_eq_ok_iff {n : UInt64} : unsigned s = .ok n ↔ IsNumeral s n.toNat := by
  have hread : readUnsigned s.toList = .ok n.toNat ↔ _ := readUnsigned_eq_ok_iff
  rw [unsigned]
  constructor
  · intro h
    cases hr : readUnsigned s.toList with
    | error fault =>
      rw [hr] at h
      cases h
    | ok m =>
      rw [hr] at h
      have hlt := (readUnsigned_eq_ok_iff.mp hr).2
      have hm : m = n.toNat := by
        rw [← Except.ok.inj h, UInt64.toNat_ofNat_of_lt' hlt]
      rw [hm] at hr
      exact (hread.mp hr).1
  · intro h
    rw [hread.mpr ⟨h, n.toNat_lt_size⟩, Except.map, UInt64.ofNat_toNat]

end Numerals

end Coalesce.Text
