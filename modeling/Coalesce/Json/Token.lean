import Coalesce.Json.Basic
import Coalesce.Text.Digits
/-! # Reading the parts of a JSON text

Each reader takes the text from where its part begins and returns what it read with the rest. A
text that breaks the grammar is malformed; one that stops too soon has ended. -/
namespace Coalesce

inductive JsonFault where
  | malformed
  | ended
  | unfit (message : String)
deriving DecidableEq

namespace Json
open Text

abbrev Reading (α : Type) := Except JsonFault (α × List Char)

def isSpace (c : Char) : Bool := c == ' ' || c == '\n' || c == '\t' || c == '\r'

def skipSpace (cs : List Char) : List Char := cs.dropWhile isSpace

def readWord : List Char → List Char → Except JsonFault (List Char)
  | [], cs => .ok cs
  | _ :: _, [] => .error .ended
  | w :: word, c :: cs => if w = c then readWord word cs else .error .malformed

/-- Four hexadecimal digits. Where fewer than four bytes are left, the text has ended. -/
def readHex4 : List Char → Reading Nat
  | a :: b :: c :: d :: rest =>
    match hexDigit? a, hexDigit? b, hexDigit? c, hexDigit? d with
    | some w, some x, some y, some z => .ok (((w * 16 + x) * 16 + y) * 16 + z, rest)
    | _, _, _, _ => .error .malformed
  | cs => .error (if cs.foldr (fun c n => c.utf8Size + n) 0 < 4 then .ended else .malformed)

def isHighSurrogate (n : Nat) : Bool := 0xD800 ≤ n && n ≤ 0xDBFF
def isLowSurrogate (n : Nat) : Bool := 0xDC00 ≤ n && n ≤ 0xDFFF

def readLowSurrogate (high : Nat) : List Char → Reading Char
  | [] => .error .ended
  | '\\' :: [] => .error .ended
  | '\\' :: 'u' :: cs =>
    match readHex4 cs with
    | .error e => .error e
    | .ok (low, rest) =>
      if isLowSurrogate low then
        .ok (Char.ofNat (0x10000 + (high - 0xD800) * 0x400 + (low - 0xDC00)), rest)
      else .error .malformed
  | _ => .error .malformed

def readEscape : List Char → Reading Char
  | [] => .error .ended
  | '"' :: cs => .ok ('"', cs)
  | '\\' :: cs => .ok ('\\', cs)
  | '/' :: cs => .ok ('/', cs)
  | 'b' :: cs => .ok ('\x08', cs)
  | 'f' :: cs => .ok ('\x0c', cs)
  | 'n' :: cs => .ok ('\n', cs)
  | 'r' :: cs => .ok ('\r', cs)
  | 't' :: cs => .ok ('\t', cs)
  | 'u' :: cs =>
    match readHex4 cs with
    | .error e => .error e
    | .ok (n, rest) =>
      if isLowSurrogate n then .error .malformed
      else if isHighSurrogate n then readLowSurrogate n rest
      else .ok (Char.ofNat n, rest)
  | _ :: _ => .error .malformed

theorem readHex4_shorter {cs rest : List Char} {n : Nat} (h : readHex4 cs = .ok (n, rest)) :
    rest.length < cs.length := by
  unfold readHex4 at h
  split at h
  · split at h
    · simp only [Except.ok.injEq, Prod.mk.injEq] at h
      simp only [List.length_cons, ← h.2]
      omega
    · simp at h
  · simp at h

theorem readLowSurrogate_shorter {high : Nat} {cs rest : List Char} {c : Char}
    (h : readLowSurrogate high cs = .ok (c, rest)) : rest.length < cs.length := by
  unfold readLowSurrogate at h
  split at h
  · simp at h
  · simp at h
  · split at h
    · simp at h
    · rename_i hex
      have := readHex4_shorter hex
      split at h
      · simp only [Except.ok.injEq, Prod.mk.injEq] at h
        simp only [List.length_cons, ← h.2]
        omega
      · simp at h
  · simp at h

theorem readEscape_shorter {cs rest : List Char} {c : Char}
    (h : readEscape cs = .ok (c, rest)) : rest.length < cs.length := by
  unfold readEscape at h
  split at h <;> try (simp at h; done)
  all_goals try (simp only [Except.ok.injEq, Prod.mk.injEq] at h; simp [← h.2])
  split at h
  · simp at h
  · rename_i hex
    have := readHex4_shorter hex
    split at h
    · simp at h
    · split at h
      · have := readLowSurrogate_shorter h
        simp only [List.length_cons]
        omega
      · simp only [Except.ok.injEq, Prod.mk.injEq] at h
        simp only [List.length_cons, ← h.2]
        omega

def readStringOn (done : List Char) (cs : List Char) : Reading String :=
  match cs with
  | [] => .error .ended
  | '"' :: rest => .ok (String.ofList done.reverse, rest)
  | '\\' :: rest =>
    match _h : readEscape rest with
    | .error e => .error e
    | .ok (c, rest') => readStringOn (c :: done) rest'
  | c :: rest => if c.toNat < 0x20 then .error .malformed else readStringOn (c :: done) rest
termination_by cs.length
decreasing_by
  · have := readEscape_shorter _h
    simp only [List.length_cons]
    omega
  · simp

def readString (cs : List Char) : Reading String := readStringOn [] cs

def isDigit (c : Char) : Bool := (digit? c).isSome

def takeDigits (cs : List Char) : List Char × List Char := cs.span isDigit

structure NumberText where
  negative : Bool
  whole : List Char
  fraction : List Char
  exponent : Option Int

def readDigitRun (cs : List Char) : Reading (List Char) :=
  match takeDigits cs with
  | ([], []) => .error .ended
  | ([], _ :: _) => .error .malformed
  | (digits, rest) => .ok (digits, rest)

def readWhole (cs : List Char) : Reading (List Char) :=
  match cs with
  | '0' :: c :: rest => if isDigit c then .error .malformed else .ok (['0'], c :: rest)
  | _ => readDigitRun cs

def readFraction : List Char → Reading (List Char)
  | '.' :: cs => readDigitRun cs
  | cs => .ok ([], cs)

def digitsValue (digits : List Char) : Nat :=
  digits.foldl (fun n c => n * 10 + (digit? c).getD 0) 0

def readExponent (cs : List Char) : Reading (Option Int) :=
  let signed (sign : Int) (cs : List Char) : Reading (Option Int) :=
    match readDigitRun cs with
    | .error e => .error e
    | .ok (digits, rest) => .ok (some (sign * digitsValue digits), rest)
  let unsignedOr (cs : List Char) : Reading (Option Int) :=
    match cs with
    | '+' :: rest => signed 1 rest
    | '-' :: rest => signed (-1) rest
    | _ => signed 1 cs
  match cs with
  | 'e' :: rest => unsignedOr rest
  | 'E' :: rest => unsignedOr rest
  | _ => .ok (none, cs)

def readMagnitude (negative : Bool) (cs : List Char) :
    Except JsonFault (NumberText × List Char) := do
  let (whole, cs) ← readWhole cs
  let (fraction, cs) ← readFraction cs
  let (exponent, cs) ← readExponent cs
  return (⟨negative, whole, fraction, exponent⟩, cs)

def readNumberText : List Char → Reading NumberText
  | '-' :: cs => readMagnitude true cs
  | cs => readMagnitude false cs

/-- The value of the first digits that stay below `2 ^ 64`, after `value`, and the count of the
digits that follow them. -/
def leadingDigits (value : Nat) : List Char → Nat × Nat
  | [] => (value, 0)
  | c :: rest =>
    let next := value * 10 + (digit? c).getD 0
    if next < UInt64.size then leadingDigits next rest else (value, rest.length + 1)

/-- `value * 10 ^ e` by one multiplication or division by a power of ten, after divisions by
`10 ^ 308` where `e` is lower than that; none if it is no finite value. -/
def scaleByTen : Nat → Double → Int → Option Double
  | 0, value, _ => some value
  | fuel + 1, value, e =>
    if e.natAbs ≤ 308 then
      let power : Double := .ofDecimal false 1 e.natAbs
      let scaled := if 0 ≤ e then value.mul power else value.div power
      if scaled.isFinite then some scaled else none
    else if value.significand = 0 then some value
    else if 0 ≤ e then none
    else scaleByTen fuel (value.div (.ofDecimal false 1 308)) (e + 308)

namespace NumberText

def scaled (t : NumberText) : Nat × Int :=
  let (whole, dropped) := leadingDigits 0 t.whole
  let (value, unread) := leadingDigits whole t.fraction
  (value, dropped - (t.fraction.length - unread : Nat) + t.exponent.getD 0)

def isInteger (t : NumberText) : Bool := t.fraction.isEmpty && t.exponent.isNone

/-- An integer from `-2 ^ 63` to `2 ^ 64 - 1`, other than `-0`, is kept as one; any other number is
a binary value, if there is a finite one. -/
def number? (t : NumberText) : Option JsonNumber :=
  let n := digitsValue t.whole
  if t.isInteger && !t.negative && n < UInt64.size then some (.integer n)
  else if t.isInteger && t.negative && n != 0 && n ≤ UInt64.size / 2 then some (.integer (-n))
  else
    let (value, e) := t.scaled
    match scaleByTen 5 (.ofDecimal false value 0) e with
    | none => none
    | some x =>
      let x := if t.negative then x.neg else x
      if h : x.isFinite = true then some (.real x h) else none

end NumberText

def readNumber (cs : List Char) : Except JsonFault (JsonNumber × List Char) := do
  let (t, rest) ← readNumberText cs
  match t.number? with
  | some n => return (n, rest)
  | none => .error .malformed

end Json

end Coalesce
