/-! # Hexadecimal text -/
namespace Coalesce.Text

def hexDigit? (c : Char) : Option Nat :=
  if '0' ≤ c ∧ c ≤ '9' then some (c.toNat - '0'.toNat)
  else if 'a' ≤ c ∧ c ≤ 'f' then some (c.toNat - 'a'.toNat + 10)
  else if 'A' ≤ c ∧ c ≤ 'F' then some (c.toNat - 'A'.toNat + 10)
  else none

def hex (n : Nat) : List Char := Nat.toDigits 16 n

def hexByte (b : UInt8) : List Char :=
  [Nat.digitChar (b.toNat / 16), Nat.digitChar (b.toNat % 16)]

def hexBytes (bytes : List UInt8) : String := String.ofList (bytes.flatMap hexByte)

def readHexBytes : List Char → Option (List UInt8)
  | [] => some []
  | a :: b :: rest => do
    let high ← hexDigit? a
    let low ← hexDigit? b
    let bytes ← readHexBytes rest
    return UInt8.ofNat (high * 16 + low) :: bytes
  | [_] => none

end Coalesce.Text
