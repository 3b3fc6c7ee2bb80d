import Coalesce.Json.Skip
import Coalesce.Proofs.NumberText
import Mathlib.Tactic.SplitIfs

/-! # The grammar of a JSON text

White space, strings, numbers and values of any depth, each told by the texts that are legal for it.
A string may name half of a surrogate pair and then stands for no characters. The readers of
strings and numbers stop just where a legal text ends. -/
namespace Coalesce.Json
open Text

def Blank (ws : List Char) : Prop := ∀ c ∈ ws, isSpace c = true

inductive Hex4 : List Char → Nat → Prop
  | digits {a b c d : Char} {w x y z : Nat} : hexDigit? a = some w → hexDigit? b = some x →
      hexDigit? c = some y → hexDigit? d = some z →
      Hex4 [a, b, c, d] (((w * 16 + x) * 16 + y) * 16 + z)

def shortEscapes : List (Char × Char) :=
  [('"', '"'), ('\\', '\\'), ('/', '/'), ('b', '\x08'), ('f', '\x0c'), ('n', '\n'), ('r', '\r'),
    ('t', '\t')]

inductive CharText : List Char → Char → Prop
  | plain {c : Char} : c ≠ '"' → c ≠ '\\' → ¬c.toNat < 0x20 → CharText [c] c
  | short {c d : Char} : (c, d) ∈ shortEscapes → CharText ['\\', c] d
  | code {ds : List Char} {n : Nat} : Hex4 ds n → isLowSurrogate n = false →
      isHighSurrogate n = false → CharText ('\\' :: 'u' :: ds) (Char.ofNat n)
  | pair {ds es : List Char} {high low : Nat} : Hex4 ds high → Hex4 es low →
      isHighSurrogate high = true → isLowSurrogate low = true →
      CharText ('\\' :: 'u' :: ds ++ '\\' :: 'u' :: es)
        (Char.ofNat (0x10000 + (high - 0xD800) * 0x400 + (low - 0xDC00)))

inductive StringText : List Char → List Char → Prop
  | nil : StringText [] []
  | cons {cs ds s : List Char} {c : Char} : CharText cs c → StringText ds s →
      StringText (cs ++ ds) (c :: s)

/-- What may stand between the quotes of a string. An escape may name any code. -/
inductive QuotedText : List Char → Prop
  | nil : QuotedText []
  | char {cs ds : List Char} {c : Char} : CharText cs c → QuotedText ds → QuotedText (cs ++ ds)
  | code {cs ds : List Char} {n : Nat} : Hex4 cs n → QuotedText ds →
      QuotedText ('\\' :: 'u' :: cs ++ ds)

def Digits (ds : List Char) : Prop := ds ≠ [] ∧ ∀ c ∈ ds, isDigit c = true

inductive FractionText : List Char → Prop
  | none : FractionText []
  | point {ds : List Char} : Digits ds → FractionText ('.' :: ds)

inductive ExponentText : List Char → Prop
  | none : ExponentText []
  | power {e : Char} {sign ds : List Char} : e ∈ ['e', 'E'] → sign ∈ [[], ['+'], ['-']] →
      Digits ds → ExponentText (e :: sign ++ ds)

inductive MagnitudeText : List Char → Prop
  | parts {whole fraction exponent : List Char} : Digits whole →
      (whole.head? = some '0' → whole = ['0']) → FractionText fraction → ExponentText exponent →
      MagnitudeText (whole ++ fraction ++ exponent)

def Bracket.opening : Bracket → Char
  | .list => '['
  | .object => '{'

/-- What comes before the value in an item or a member: nothing, or a name with its colon. -/
inductive LeadText : Bracket → List Char → Prop
  | item : LeadText .list []
  | name {ws cs ws' : List Char} : Blank ws → QuotedText cs → Blank ws' →
      LeadText .object (ws ++ '"' :: cs ++ '"' :: ws' ++ [':'])

/-- The text of a value if no bracket is given. Else how the bracket goes on from before its first
value, behind that value's name if it has one, to its end. -/
inductive Formed : Option Bracket → List Char → Prop
  | word {cs : List Char} :
      cs ∈ [['n', 'u', 'l', 'l'], ['t', 'r', 'u', 'e'], ['f', 'a', 'l', 's', 'e']] → Formed none cs
  | string {cs : List Char} : QuotedText cs → Formed none ('"' :: cs ++ ['"'])
  | magnitude {cs : List Char} : MagnitudeText cs → Formed none cs
  | negative {cs : List Char} : MagnitudeText cs → Formed none ('-' :: cs)
  | empty {ws : List Char} (b : Bracket) : Blank ws → Formed none (b.opening :: ws ++ [b.closing])
  | bracket {b : Bracket} {lead cs : List Char} : LeadText b lead → Formed (some b) cs →
      Formed none (b.opening :: lead ++ cs)
  | last {b : Bracket} {ws cs ws' : List Char} : Blank ws → Formed none cs → Blank ws' →
      Formed (some b) (ws ++ cs ++ ws' ++ [b.closing])
  | more {b : Bracket} {ws cs ws' lead ds : List Char} : Blank ws → Formed none cs → Blank ws' →
      LeadText b lead → Formed (some b) ds → Formed (some b) (ws ++ cs ++ ws' ++ ',' :: lead ++ ds)

section Spaces
variable {ws cs rest : List Char} {c : Char}

@[simp] theorem blank_nil : Blank [] := by
  simp [Blank]

theorem skipSpace_append (h : Blank ws) (cs : List Char) : skipSpace (ws ++ cs) = skipSpace cs :=
  List.dropWhile_append_of_pos h

theorem skipSpace_cons (h : isSpace c = false) (cs : List Char) : skipSpace (c :: cs) = c :: cs :=
  List.dropWhile_cons_of_neg (by simp [h])

theorem skipSpace_blank (h : Blank ws) (hc : isSpace c = false) (cs : List Char) :
    skipSpace (ws ++ c :: cs) = c :: cs := by
  rw [skipSpace_append h, skipSpace_cons hc]

/-- No number goes on with white space. -/
theorem ends_of_space (h : isSpace c = true) : Ends (c :: rest) := by
  rintro d ⟨⟩
  simp only [isSpace, Bool.or_eq_true, beq_iff_eq] at h
  rcases h with ((rfl | rfl) | rfl) | rfl <;> decide

theorem isSpace_of_isDigit (h : isDigit c = true) : isSpace c = false := by
  by_contra hspace
  have hends : Ends [c] := ends_of_space (eq_true_of_ne_false hspace)
  have hdigit := (hends c rfl).1
  rw [h] at hdigit
  cases hdigit

theorem ends_append (h : Blank ws) (hrest : Ends rest) : Ends (ws ++ rest) := by
  cases ws with
  | nil => exact hrest
  | cons c ws => exact ends_of_space (h c List.mem_cons_self)

theorem ends_comma (cs : List Char) : Ends (',' :: cs) := by
  rintro c ⟨⟩
  decide

theorem ends_closing (b : Bracket) (cs : List Char) : Ends (b.closing :: cs) := by
  rintro c ⟨⟩
  cases b <;> decide

end Spaces

section Strings
variable {cs ds s done rest : List Char} {c d : Char} {n : Nat}

theorem Hex4.readHex4 (h : Hex4 ds n) (rest : List Char) :
    readHex4 (ds ++ rest) = .ok (n, rest) := by
  cases h with
  | digits ha hb hc hd => simp [Json.readHex4, ha, hb, hc, hd]

theorem readStringOn_backslash (h : readEscape cs = .ok (c, rest)) :
    readStringOn done ('\\' :: cs) = readStringOn (c :: done) rest := by
  rw [readStringOn]
  split
  · rename_i heq
    rw [h] at heq
    cases heq
  · rename_i heq
    rw [h] at heq
    cases heq
    rfl

/-- A string is refused for its first escape. -/
theorem readString_error {fault : JsonFault} (h : readEscape cs = .error fault) :
    readString ('\\' :: cs) = .error fault := by
  rw [readString, readStringOn]
  split
  · rename_i heq
    rw [h] at heq
    cases heq
    rfl
  · rename_i heq
    rw [h] at heq
    cases heq

theorem readStringOn_plain (hquote : c ≠ '"') (hback : c ≠ '\\') (h : ¬ c.toNat < 0x20) :
    readStringOn done (c :: rest) = readStringOn (c :: done) rest := by
  rw [readStringOn, if_neg h]
  · exact hquote
  · exact hback

theorem readEscape_short (h : (c, d) ∈ shortEscapes) : readEscape (c :: rest) = .ok (d, rest) := by
  simp only [shortEscapes, List.mem_cons, Prod.mk.injEq, List.not_mem_nil, or_false] at h
  rcases h with ⟨rfl, rfl⟩ | ⟨rfl, rfl⟩ | ⟨rfl, rfl⟩ | ⟨rfl, rfl⟩ | ⟨rfl, rfl⟩ | ⟨rfl, rfl⟩ |
    ⟨rfl, rfl⟩ | ⟨rfl, rfl⟩ <;> rfl

theorem readEscape_pair {high low : Nat} (hd : Hex4 cs high) (he : Hex4 ds low)
    (hhigh : isHighSurrogate high = true) (hlow : isLowSurrogate low = true) (rest : List Char) :
    readEscape ('u' :: (cs ++ '\\' :: 'u' :: (ds ++ rest))) =
      .ok (Char.ofNat (0x10000 + (high - 0xD800) * 0x400 + (low - 0xDC00)), rest) := by
  have hnot : isLowSurrogate high = false := by
    simp only [isHighSurrogate, isLowSurrogate, Bool.and_eq_true, decide_eq_true_eq,
      Bool.and_eq_false_iff, decide_eq_false_iff_not] at hhigh ⊢
    omega
  simp [readEscape, readLowSurrogate, hd.readHex4, he.readHex4, hnot, hhigh, hlow]

theorem CharText.readStringOn (h : CharText cs c) (done rest : List Char) :
    readStringOn done (cs ++ rest) = readStringOn (c :: done) rest := by
  cases h with
  | plain hquote hback hcontrol => exact readStringOn_plain hquote hback hcontrol
  | short h => exact readStringOn_backslash (readEscape_short h)
  | code hd hlow hhigh =>
    apply readStringOn_backslash
    simp [readEscape, hd.readHex4, hlow, hhigh]
  | pair hd he hhigh hlow =>
    rw [List.append_assoc]
    exact readStringOn_backslash (readEscape_pair hd he hhigh hlow rest)

theorem StringText.readStringOn (h : StringText cs s) (done rest : List Char) :
    readStringOn done (cs ++ '"' :: rest) = .ok (String.ofList (done.reverse ++ s), rest) := by
  induction h generalizing done with
  | nil => simp [Json.readStringOn]
  | cons hc _ ih =>
    rw [List.append_assoc, hc.readStringOn, ih]
    simp

/-- A string is read up to its closing quote. -/
theorem StringText.readString (h : StringText cs s) (rest : List Char) :
    readString (cs ++ '"' :: rest) = .ok (String.ofList s, rest) :=
  h.readStringOn [] rest

theorem hexDigit?_digitChar {n : Nat} (h : n < 16) : hexDigit? (Nat.digitChar n) = some n := by
  have hall : ∀ m < 16, hexDigit? (Nat.digitChar m) = some m := by decide
  exact hall n h

theorem hex4_control (h : c.toNat < 0x20) :
    Hex4 ('0' :: '0' :: hexByte (UInt8.ofNat c.toNat)) c.toNat := by
  have hbyte : (UInt8.ofNat c.toNat).toNat = c.toNat := by
    rw [UInt8.toNat_ofNat']
    omega
  have hhigh := hexDigit?_digitChar (n := c.toNat / 16) (by omega)
  have hlow := hexDigit?_digitChar (n := c.toNat % 16) (by omega)
  have hvalue : ((0 * 16 + 0) * 16 + c.toNat / 16) * 16 + c.toNat % 16 = c.toNat := by omega
  have hzero : hexDigit? '0' = some 0 := rfl
  have htext := Hex4.digits hzero hzero hhigh hlow
  rw [hvalue] at htext
  rwa [hexByte, hbyte]

theorem charText_control (h : c.toNat < 0x20) :
    CharText ('\\' :: 'u' :: '0' :: '0' :: hexByte (UInt8.ofNat c.toNat)) c := by
  have hlow : isLowSurrogate c.toNat = false := by
    rw [isLowSurrogate, Bool.and_eq_false_iff]
    exact .inl (decide_eq_false (by omega))
  have hhigh : isHighSurrogate c.toNat = false := by
    rw [isHighSurrogate, Bool.and_eq_false_iff]
    exact .inl (decide_eq_false (by omega))
  have htext := CharText.code (hex4_control h) hlow hhigh
  rwa [Char.ofNat_toNat] at htext

theorem charText_escape (c : Char) : CharText (escape c) c := by
  unfold escape
  split_ifs with hquote hback hbell hfeed hline hreturn htab hcontrol
  · rw [hquote]; exact .short (by decide)
  · rw [hback]; exact .short (by decide)
  · rw [hbell]; exact .short (by decide)
  · rw [hfeed]; exact .short (by decide)
  · rw [hline]; exact .short (by decide)
  · rw [hreturn]; exact .short (by decide)
  · rw [htab]; exact .short (by decide)
  · exact charText_control hcontrol
  · exact .plain hquote hback hcontrol

theorem stringText_escape (s : List Char) : StringText (s.flatMap escape) s := by
  induction s with
  | nil => exact .nil
  | cons c s ih => exact .cons (charText_escape c) ih

theorem skipString_backslash (h : skipEscape cs = .ok rest) :
    skipString ('\\' :: cs) = skipString rest := by
  rw [skipString]
  split
  · rename_i heq
    rw [h] at heq
    cases heq
  · rename_i heq
    rw [h] at heq
    cases heq
    rfl

theorem skipString_plain (hquote : c ≠ '"') (hback : c ≠ '\\') (h : ¬c.toNat < 0x20) :
    skipString (c :: rest) = skipString rest := by
  rw [skipString, if_neg h]
  · exact hquote
  · exact hback

theorem Hex4.skipString (h : Hex4 ds n) (rest : List Char) :
    skipString ('\\' :: 'u' :: ds ++ rest) = Json.skipString rest := by
  apply skipString_backslash
  simp [skipEscape, h.readHex4, Except.map]

theorem CharText.skipString (h : CharText cs c) (rest : List Char) :
    skipString (cs ++ rest) = Json.skipString rest := by
  cases h with
  | plain hquote hback hcontrol => exact skipString_plain hquote hback hcontrol
  | @short c d h =>
    apply skipString_backslash
    simp only [shortEscapes, List.mem_cons, Prod.mk.injEq, List.not_mem_nil, or_false] at h
    rcases h with ⟨rfl, -⟩ | ⟨rfl, -⟩ | ⟨rfl, -⟩ | ⟨rfl, -⟩ | ⟨rfl, -⟩ | ⟨rfl, -⟩ | ⟨rfl, -⟩ |
      ⟨rfl, -⟩ <;> rfl
  | code hd => exact hd.skipString rest
  | pair hd he =>
    rw [List.append_assoc, hd.skipString]
    exact he.skipString rest

theorem QuotedText.skipString (h : QuotedText cs) (rest : List Char) :
    skipString (cs ++ '"' :: rest) = .ok rest := by
  induction h with
  | nil => simp [Json.skipString]
  | char hc _ ih => rw [List.append_assoc, hc.skipString, ih]
  | code hd _ ih => rw [List.append_assoc, hd.skipString, ih]

end Strings

section Numbers
variable {cs ds whole fraction exponent rest : List Char} {c : Char}

theorem digits_decimal (n : Nat) : Digits (decimal n) := ⟨Nat.toDigits_ne_nil, isDigit_decimal⟩

theorem Digits.head (h : Digits ds) : ∃ c cs, ds = c :: cs ∧ isDigit c = true := by
  obtain ⟨c, cs, rfl⟩ := List.exists_cons_of_ne_nil h.1
  exact ⟨c, cs, rfl, h.2 c List.mem_cons_self⟩

theorem Digits.skipDigits (h : Digits ds) (hrest : Stops rest) :
    skipDigits (ds ++ rest) = .ok rest := by
  rw [Json.skipDigits, takeDigits_append h.2 hrest]
  cases ds with
  | nil => exact absurd rfl h.1
  | cons c ds => rfl

theorem Digits.skipSign (h : Digits ds) (rest : List Char) :
    skipSign (ds ++ rest) = ds ++ rest := by
  obtain ⟨d, ds, rfl, hd⟩ := h.head
  unfold Json.skipSign
  split
  · rename_i heq
    cases heq
    cases hd
  · rename_i heq
    cases heq
    cases hd
  · rfl

theorem Digits.skipWhole (h : Digits whole) (hzero : whole.head? = some '0' → whole = ['0'])
    (hrest : Stops rest) : skipWhole (whole ++ rest) = .ok rest := by
  unfold Json.skipWhole
  split
  · rename_i c ds heq
    obtain ⟨d, ds', rfl, -⟩ := h.head
    have hd : d = '0' := (List.cons.inj heq).1
    rw [hzero (congrArg some hd), List.singleton_append, List.cons.injEq] at heq
    rw [heq.2, if_neg]
    simp [hrest c (heq.2 ▸ rfl)]
  · exact h.skipDigits hrest

/-- An exponent comes next, or the number ends. -/
theorem ExponentText.head (h : ExponentText exponent) (hrest : Ends rest) :
    ∀ c ∈ (exponent ++ rest).head?, isDigit c = false ∧ c ≠ '.' := by
  intro c hc
  cases h with
  | none => exact ⟨(hrest c hc).1, (hrest c hc).2.1⟩
  | power he =>
    obtain rfl := Option.some.inj hc
    simp only [List.mem_cons, List.not_mem_nil, or_false] at he
    rcases he with rfl | rfl <;> decide

theorem FractionText.stops (h : FractionText fraction) (hrest : Stops rest) :
    Stops (fraction ++ rest) := by
  cases h with
  | none => exact hrest
  | point => exact stops_point _

theorem FractionText.skipFraction (h : FractionText fraction)
    (hrest : ∀ c ∈ rest.head?, isDigit c = false ∧ c ≠ '.') :
    skipFraction (fraction ++ rest) = .ok rest := by
  cases h with
  | none =>
    rw [List.nil_append, Json.skipFraction.eq_def]
    split
    · exact absurd rfl (hrest _ rfl).2
    · rfl
  | point hds => exact hds.skipDigits fun c hc => (hrest c hc).1

theorem ExponentText.skipExponent (h : ExponentText exponent) (hrest : Ends rest) :
    skipExponent (exponent ++ rest) = .ok rest := by
  cases h with
  | none =>
    rw [List.nil_append, Json.skipExponent.eq_def]
    split
    · exact absurd rfl (hrest _ rfl).2.2.1
    · exact absurd rfl (hrest _ rfl).2.2.2
    · rfl
  | @power e sign ds he hsign hds =>
    have hsigned : skipSign (sign ++ (ds ++ rest)) = ds ++ rest := by
      simp only [List.mem_cons, List.not_mem_nil, or_false] at hsign
      rcases hsign with rfl | rfl | rfl
      · exact hds.skipSign rest
      · rfl
      · rfl
    have hskip : skipDigits (skipSign (sign ++ (ds ++ rest))) = .ok rest := by
      rw [hsigned]
      exact hds.skipDigits hrest.stops
    simp only [List.mem_cons, List.not_mem_nil, or_false] at he
    rw [List.append_assoc]
    rcases he with rfl | rfl <;> exact hskip

theorem MagnitudeText.head (h : MagnitudeText cs) :
    ∃ c ds, cs = c :: ds ∧ isDigit c = true := by
  cases h with
  | parts hwhole =>
    obtain ⟨c, ds, rfl, hc⟩ := hwhole.head
    exact ⟨c, _, rfl, hc⟩

theorem MagnitudeText.skipMagnitude (h : MagnitudeText cs) (hrest : Ends rest) :
    skipMagnitude (cs ++ rest) = .ok rest := by
  cases h with
  | @parts whole fraction exponent hwhole hzero hfraction hexponent =>
    have hhead := hexponent.head hrest
    have hstops : Stops (fraction ++ (exponent ++ rest)) :=
      hfraction.stops fun c hc => (hhead c hc).1
    rw [Json.skipMagnitude, List.append_assoc, List.append_assoc, hwhole.skipWhole hzero hstops]
    simp only [bind, Except.bind, hfraction.skipFraction hhead]
    exact hexponent.skipExponent hrest

end Numbers

end Coalesce.Json
