/-! # Decimal numbers below `2 ^ 64`

A number is written as decimal digits, with an optional plus sign in front when it is read. Reading
goes from left to right and stops at the first fault. -/
namespace Coalesce.Text

inductive DigitsFault where
  | empty
  | invalidDigit
  | tooLarge
deriving DecidableEq

def DigitsFault.message : DigitsFault → String
  | .empty => "cannot parse integer from empty string"
  | .invalidDigit => "invalid digit found in string"
  | .tooLarge => "number too large to fit in target type"

def digit? (c : Char) : Option Nat :=
  if '0' ≤ c ∧ c ≤ '9' then some (c.toNat - '0'.toNat) else none

def readDigits (value : Nat) : List Char → Except DigitsFault Nat
  | [] => .ok value
  | c :: rest =>
    match digit? c with
    | none => .error .invalidDigit
    | some d =>
      if value * 10 + d < UInt64.size then readDigits (value * 10 + d) rest else .error .tooLarge

def readUnsigned : List Char → Except DigitsFault Nat
  | [] => .error .empty
  | ['+'] => .error .invalidDigit
  | '+' :: rest => readDigits 0 rest
  | cs => readDigits 0 cs

def unsigned (s : String) : Except DigitsFault UInt64 :=
  (readUnsigned s.toList).map UInt64.ofNat

def decimal (n : Nat) : List Char := Nat.toDigits 10 n

def decimalText (n : Nat) : String := String.ofList (decimal n)

end Coalesce.Text
