/-! # A place in a YAML text

Lines and columns count from zero, columns in characters; an offset counts octets. A line ends at a
line feed, a carriage return, both, a next line, or a line or paragraph separator. -/
namespace Coalesce.Yaml

structure Cursor where
  rest : List Char
  offset : Nat := 0
  line : Nat := 0
  column : Nat := 0

def isBreak (c : Char) : Bool :=
  c == '\n' || c == '\r' || c == '\u0085' || c == '\u2028' || c == '\u2029'

def isBlank (c : Char) : Bool := c == ' ' || c == '\t'

def isWord (c : Char) : Bool :=
  ('0' ≤ c && c ≤ '9') || ('A' ≤ c && c ≤ 'Z') || ('a' ≤ c && c ≤ 'z') || c == '_' || c == '-'

def isAllowed (c : Char) : Bool :=
  let n := c.toNat
  n == 0x09 || n == 0x0A || n == 0x0D || (0x20 ≤ n && n ≤ 0x7E) || n == 0x85
    || (0xA0 ≤ n && n ≤ 0xD7FF) || (0xE000 ≤ n && n ≤ 0xFFFD) || 0x10000 ≤ n

namespace Cursor

def peek (c : Cursor) : Option Char := c.rest.head?

def peekAt (c : Cursor) (n : Nat) : Option Char := c.rest[n]?

def atEnd (c : Cursor) : Bool := c.rest.isEmpty

def sees (c : Cursor) (p : Char → Bool) : Bool := c.peek.any p

def seesBreak (c : Cursor) : Bool := c.sees isBreak

def seesBlank (c : Cursor) : Bool := c.sees isBlank

def isGapAt (c : Cursor) (n : Nat) : Bool :=
  (c.peekAt n).all fun x => isBlank x || isBreak x

def isLineEnd (c : Cursor) : Bool := c.peek.all isBreak

def octets (cs : List Char) : Nat := cs.foldr (fun c n => c.utf8Size + n) 0

def skip (c : Cursor) (n : Nat) : Cursor :=
  { c with
    rest := c.rest.drop n
    offset := c.offset + octets (c.rest.take n)
    column := c.column + n }

def takeWhile (c : Cursor) (p : Char → Bool) : List Char × Cursor :=
  let run := c.rest.takeWhile p
  (run, c.skip run.length)

def skipBreak (c : Cursor) : Cursor :=
  match c.rest with
  | '\r' :: '\n' :: rest => ⟨rest, c.offset + 2, c.line + 1, 0⟩
  | x :: rest => if isBreak x then ⟨rest, c.offset + x.utf8Size, c.line + 1, 0⟩ else c
  | [] => c

/-- What a line break stands for in a scalar: a line feed, or a separator that stays itself. -/
def breakText (c : Cursor) : List Char :=
  match c.rest with
  | [] => []
  | x :: _ =>
    if x == '\u2028' || x == '\u2029' then [x]
    else if isBreak x then ['\n']
    else []

def seesDocumentMark (c : Cursor) (mark : Char) : Bool :=
  c.column == 0 && c.rest.take 3 == [mark, mark, mark] && c.isGapAt 3

def seesDocumentIndicator (c : Cursor) : Bool :=
  c.seesDocumentMark '-' || c.seesDocumentMark '.'

end Cursor

end Coalesce.Yaml
