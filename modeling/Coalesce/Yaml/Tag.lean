import Coalesce.Text.Hex
import Coalesce.Yaml.Cursor
/-! # YAML tags

A tag is a handle, which directives may give a meaning, and a suffix. Escaped octets of a suffix
stand as the characters of their numbers. -/
namespace Coalesce.Yaml
open Text

structure Tag where
  handle : String
  suffix : String
deriving DecidableEq

def isUriMark (c : Char) : Bool := ";/?:@&=+$.%!~*'()".toList.contains c

def isUriChar (verbatim : Bool) (c : Char) : Bool :=
  isWord c || isUriMark c || (verbatim && (c == ',' || c == '[' || c == ']'))

def escapedOctet? : List Char → Option Nat
  | '%' :: high :: low :: _ => do return (← hexDigit? high) * 16 + (← hexDigit? low)
  | _ => none

def octetsAfter? (first : Nat) : Option Nat :=
  if first < 0x80 then some 0
  else if first / 0x20 = 6 then some 1
  else if first / 0x10 = 14 then some 2
  else if first / 8 = 30 then some 3
  else none

def readOctets : Nat → List Char → Cursor → Option (List Char × Cursor)
  | 0, done, c => some (done, c)
  | n + 1, done, c => do
    let octet ← escapedOctet? c.rest
    if octet / 0x40 = 2 then readOctets n (done ++ [Char.ofNat octet]) (c.skip 3) else none

def readEscapedCode (done : List Char) (c : Cursor) : Option (List Char × Cursor) := do
  let octet ← escapedOctet? c.rest
  readOctets (← octetsAfter? octet) (done ++ [Char.ofNat octet]) (c.skip 3)

def readUriOn (verbatim : Bool) : Nat → List Char → Cursor → Option (List Char × Cursor)
  | 0, _, _ => none
  | fuel + 1, done, c =>
    match c.peek with
    | none => some (done, c)
    | some x =>
      if x == '%' then do
        let (done, c) ← readEscapedCode done c
        readUriOn verbatim fuel done c
      else if isUriChar verbatim x then readUriOn verbatim fuel (done ++ [x]) (c.skip 1)
      else some (done, c)

/-- A suffix, of which the characters `head` have been read as a part of the handle. An escaped zero
octet ends it. -/
def readUri (verbatim : Bool) (head : List Char) (mayBeEmpty : Bool) (c : Cursor) :
    Option (String × Cursor) := do
  let (text, c) ← readUriOn verbatim (c.rest.length + 1) head c
  if text.isEmpty && !mayBeEmpty then none
  else return (String.ofList (text.takeWhile (· != '\x00')), c)

def readHandle (c : Cursor) : Option (List Char × Cursor) :=
  if c.peek == some '!' then
    let (word, c) := (c.skip 1).takeWhile isWord
    if c.peek == some '!' then some ('!' :: word ++ ['!'], c.skip 1) else some ('!' :: word, c)
  else none

def readDirectiveHandle (c : Cursor) : Option (String × Cursor) := do
  let (handle, c) ← readHandle c
  if handle.getLast? = some '!' then return (String.ofList handle, c) else none

/-- A tag, from its exclamation mark on. A word after a single mark is the suffix's beginning, and
the lone mark is a tag of its own. -/
def readTagText (c : Cursor) : Option (Tag × Cursor) := do
  if c.peekAt 1 == some '<' then
    let (suffix, c) ← readUri true [] false (c.skip 2)
    if c.peek == some '>' then return (⟨"", suffix⟩, c.skip 1) else none
  else
    let (handle, c) ← readHandle c
    if 1 < handle.length ∧ handle.getLast? = some '!' then
      let (suffix, c) ← readUri false [] false c
      return (⟨String.ofList handle, suffix⟩, c)
    else
      let (suffix, c) ← readUri false handle.tail true c
      return (if suffix.isEmpty then ⟨"", "!"⟩ else ⟨"!", suffix⟩, c)

def readTag (inFlow : Bool) (c : Cursor) : Option (Tag × Cursor) := do
  let (tag, c) ← readTagText c
  if c.isGapAt 0 || (inFlow && c.peek == some ',') then return (tag, c) else none

end Coalesce.Yaml
