import Coalesce.Number.Binary
import Coalesce.Text.Digits
/-! # The shortest decimal of a binary value

Of all decimals that round to the value, those with the fewest digits are kept, and of these the
nearest. The text is positional between two powers of ten and has an exponent outside of them. -/
namespace Coalesce

structure Decimal where
  digits : Nat
  exponent : Int
deriving DecidableEq

namespace Decimal

def compareScaled (a : Nat) (i : Int) (n : Nat) (j : Int) : Ordering :=
  compare (a * Nat.pow 10 i.toNat * Nat.pow 2 (-j).toNat)
    (n * Nat.pow 2 j.toNat * Nat.pow 10 (-i).toNat)

def strip : Nat → Decimal → Decimal
  | 0, d => d
  | fuel + 1, d =>
    if d.digits ≠ 0 ∧ d.digits % 10 = 0 then strip fuel ⟨d.digits / 10, d.exponent + 1⟩ else d

end Decimal

namespace Binary
variable {f : FloatFormat}

def readsBack (x : Binary f) (d : Decimal) : Bool :=
  let m := x.significand
  let low := if x.narrowBelow then 4 * m - 1 else 4 * m - 2
  let atLow := Decimal.compareScaled d.digits d.exponent low (x.exponent - 2)
  let atHigh := Decimal.compareScaled d.digits d.exponent (4 * m + 2) (x.exponent - 2)
  let ends := m % 2 == 0
  (atLow == .gt || (ends && atLow == .eq)) && (atHigh == .lt || (ends && atHigh == .eq))

def scale (x : Binary f) : Int :=
  let num := x.significand * Nat.pow 2 x.exponent.toNat
  let den := Nat.pow 2 (-x.exponent).toNat
  if den ≤ num then (Text.decimal (num / den)).length
  else 1 - (Text.decimal ((den - 1) / num)).length

/-- The two neighbours of the magnitude among the multiples of `10 ^ g`: the one not above it, and
whether the one above is nearer. -/
def neighbours (x : Binary f) (g : Int) : Nat × Bool :=
  let num := x.significand * Nat.pow 2 x.exponent.toNat * Nat.pow 10 (-g).toNat
  let den := Nat.pow 2 (-x.exponent).toNat * Nat.pow 10 g.toNat
  let q := num / den
  let r := num % den
  (q, 2 * r > den || (2 * r == den && q % 2 == 1))

def onGrid? (x : Binary f) (g : Int) : Option Decimal :=
  let (q, up) := x.neighbours g
  let below : Decimal := ⟨q, g⟩
  let above : Decimal := ⟨q + 1, g⟩
  match x.readsBack below, x.readsBack above with
  | true, true => some (if up then above else below)
  | true, false => some below
  | false, true => some above
  | false, false => none

def exactDecimal (x : Binary f) : Decimal :=
  if 0 ≤ x.exponent then ⟨x.significand * Nat.pow 2 x.exponent.toNat, 0⟩
  else ⟨x.significand * Nat.pow 5 (-x.exponent).toNat, x.exponent⟩

def shortest (x : Binary f) : Decimal :=
  let k := x.scale
  let found := (List.range 17).findSome? fun n => x.onGrid? (k - (n + 1 : Nat))
  let d := found.getD x.exactDecimal
  d.strip (Text.decimal d.digits).length

end Binary

/-- The powers of ten of the leading digit between which a number is written positionally. -/
structure NumberLayout where
  least : Int
  greatest : Int

namespace NumberLayout
open Text

def single : NumberLayout := ⟨-6, 12⟩
def double : NumberLayout := ⟨-5, 15⟩

/-- The text of a decimal that is not zero, with at least one digit after a point that no exponent
follows. -/
def render (layout : NumberLayout) (d : Decimal) : List Char :=
  let digits := decimal d.digits
  let lead := d.exponent + digits.length - 1
  if layout.least ≤ lead ∧ lead ≤ layout.greatest then
    if 0 ≤ d.exponent then digits ++ List.replicate d.exponent.toNat '0' ++ ['.', '0']
    else if 0 ≤ lead then
      digits.take (lead.toNat + 1) ++ '.' :: digits.drop (lead.toNat + 1)
    else '0' :: '.' :: List.replicate (-lead - 1).toNat '0' ++ digits
  else
    let point := if digits.length ≤ 1 then [] else '.' :: digits.drop 1
    let sign := if lead < 0 then '-' else '+'
    digits.take 1 ++ point ++ 'e' :: sign :: decimal lead.natAbs

def renderBinary {f : FloatFormat} (layout : NumberLayout) (x : Binary f) : List Char :=
  let magnitude := if x.significand = 0 then ['0', '.', '0'] else layout.render x.shortest
  if x.negative then '-' :: magnitude else magnitude

end NumberLayout

end Coalesce
