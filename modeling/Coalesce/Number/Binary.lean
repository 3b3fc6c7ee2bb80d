/-! # Binary floating point

A value of a format is a sign, a biased exponent and a fraction. Results are rounded to the nearest
value, a tie going to the one whose last fraction bit is zero, and to infinity when the exponent has
no room. -/
namespace Coalesce

structure FloatFormat where
  fractionBits : Nat
  exponentBits : Nat
deriving DecidableEq

namespace FloatFormat

def single : FloatFormat := ⟨23, 8⟩
def double : FloatFormat := ⟨52, 11⟩

variable (f : FloatFormat)

def top : Nat := Nat.pow 2 f.exponentBits - 1

def leastExponent : Int := 2 - Nat.pow 2 (f.exponentBits - 1) - f.fractionBits

end FloatFormat

structure Binary (f : FloatFormat) where
  negative : Bool
  biased : Nat
  fraction : Nat
  biased_le : biased ≤ f.top
  fraction_lt : fraction < Nat.pow 2 f.fractionBits
deriving DecidableEq

namespace Binary
variable {f : FloatFormat}

def isFinite (x : Binary f) : Bool := x.biased < f.top

def significand (x : Binary f) : Nat :=
  if x.biased = 0 then x.fraction else Nat.pow 2 f.fractionBits + x.fraction

def exponent (x : Binary f) : Int := f.leastExponent + ((x.biased - 1 : Nat) : Int)

/-- The gap to the next smaller magnitude is half the gap to the next larger one. -/
def narrowBelow (x : Binary f) : Bool := x.fraction == 0 && 1 < x.biased

def ofCode (negative : Bool) (code : Nat) : Binary f :=
  if h : code / Nat.pow 2 f.fractionBits ≤ f.top then
    if code / Nat.pow 2 f.fractionBits = f.top then
      ⟨negative, f.top, 0, Nat.le_refl _, Nat.two_pow_pos _⟩
    else
      ⟨negative, code / Nat.pow 2 f.fractionBits, code % Nat.pow 2 f.fractionBits, h,
        Nat.mod_lt _ (Nat.two_pow_pos _)⟩
  else ⟨negative, f.top, 0, Nat.le_refl _, Nat.two_pow_pos _⟩

def zero (negative : Bool) : Binary f := ofCode negative 0

def infinity (negative : Bool) : Binary f :=
  ⟨negative, f.top, 0, Nat.le_refl _, Nat.two_pow_pos _⟩

def undefined : Binary f :=
  ⟨false, f.top, Nat.pow 2 f.fractionBits - 1, Nat.le_refl _,
    Nat.sub_lt (Nat.two_pow_pos _) Nat.one_pos⟩

/-- `num / den` in units of `2 ^ e`, rounded to nearest, ties to even. -/
def roundQuotient (num den : Nat) (e : Int) : Nat :=
  let n := num * Nat.pow 2 (-e).toNat
  let d := den * Nat.pow 2 e.toNat
  let q := n / d
  if 2 * (n % d) < d ∨ 2 * (n % d) = d ∧ q % 2 = 0 then q else q + 1

/-- The exponent at which `num / den` has as many bits as the format keeps, but no less than the
format's least. -/
def unitExponent (f : FloatFormat) (num den : Nat) : Int :=
  let e : Int := (Nat.log2 num : Int) - (Nat.log2 den : Int) - f.fractionBits
  let short := num * Nat.pow 2 (-e).toNat < den * Nat.pow 2 e.toNat * Nat.pow 2 f.fractionBits
  max (if short then e - 1 else e) f.leastExponent

def ofRatio (negative : Bool) (num den : Nat) : Binary f :=
  if num = 0 then zero negative
  else
    let e := unitExponent f num den
    ofCode negative
      ((e - f.leastExponent).toNat * Nat.pow 2 f.fractionBits + roundQuotient num den e)

def ofScaled (negative : Bool) (m : Nat) (e : Int) : Binary f :=
  ofRatio negative (m * Nat.pow 2 e.toNat) (Nat.pow 2 (-e).toNat)

def ofDecimal (negative : Bool) (m : Nat) (e : Int) : Binary f :=
  ofRatio negative (m * Nat.pow 10 e.toNat) (Nat.pow 10 (-e).toNat)

def convert (g : FloatFormat) (x : Binary f) : Binary g :=
  if x.isFinite then ofScaled x.negative x.significand x.exponent
  else if x.fraction = 0 then infinity x.negative
  else undefined

def neg (x : Binary f) : Binary f := { x with negative := !x.negative }

def mul (x y : Binary f) : Binary f :=
  ofScaled (x.negative != y.negative) (x.significand * y.significand) (x.exponent + y.exponent)

def div (x y : Binary f) : Binary f :=
  let e := x.exponent - y.exponent
  ofRatio (x.negative != y.negative) (x.significand * Nat.pow 2 e.toNat)
    (y.significand * Nat.pow 2 (-e).toNat)

end Binary

abbrev Single := Binary .single
abbrev Double := Binary .double

end Coalesce
