import Coalesce.Text.Digits
import Coalesce.Time
/-! # Durations as text

The unit is the largest of `s`, `ms`, `µs` and `ns` of which the duration holds at least one. The
fraction is exact, or rounded to a given number of places. -/
namespace Coalesce.Duration
open Text

/-- The unit of a duration's text: its count of nanoseconds as a power of ten, and its name. -/
def displayUnit (d : Duration) : Nat × String :=
  if 1000000000 ≤ d.nanos then (9, "s")
  else if 1000000 ≤ d.nanos then (6, "ms")
  else if 1000 ≤ d.nanos then (3, "µs")
  else (0, "ns")

def lastDigits (n width : Nat) : List Char :=
  let digits := decimal n
  List.replicate (width - digits.length) '0' ++ digits

def stripZeros (digits : List Char) : List Char :=
  (digits.reverse.dropWhile (· == '0')).reverse

def display (d : Duration) : String :=
  let (power, name) := d.displayUnit
  let unit := Nat.pow 10 power
  let fraction := stripZeros (lastDigits (d.nanos % unit) power)
  let point := if fraction.isEmpty then [] else '.' :: fraction
  String.ofList (decimal (d.nanos / unit) ++ point) ++ name

/-- The text with `places` digits after the point; a half is rounded up. -/
def displayRounded (d : Duration) (places : Nat) : String :=
  let (power, name) := d.displayUnit
  let unit := Nat.pow 10 power
  let steps := Nat.pow 10 places
  let scaled := (d.nanos * steps * 2 + unit) / (2 * unit)
  let point := if places = 0 then [] else '.' :: lastDigits (scaled % steps) places
  String.ofList (decimal (scaled / steps) ++ point) ++ name

end Coalesce.Duration
