import Coalesce.Text.Hex
import Coalesce.Text.Printable
/-! # Text quoted for diagnostics -/
namespace Coalesce.Text

def quotedChar (c : Char) : List Char :=
  if c = '\x00' then ['\\', '0']
  else if c = '\t' then ['\\', 't']
  else if c = '\r' then ['\\', 'r']
  else if c = '\n' then ['\\', 'n']
  else if c = '"' then ['\\', '"']
  else if c = '\\' then ['\\', '\\']
  else if ' ' ≤ c ∧ c ≤ '~' then [c]
  else if isExtending c || !isPrintable c then ['\\', 'u', '{'] ++ hex c.toNat ++ ['}']
  else [c]

/-- The text between double quotes. A character that is not printable or that extends the one
before it is written as its code point. -/
def quoted (s : String) : String :=
  String.ofList ('"' :: s.toList.flatMap quotedChar ++ ['"'])

end Coalesce.Text
