import Coalesce.Text.Digits
import Coalesce.Yaml.Scalar
import Coalesce.Yaml.Tag
/-! # YAML tokens

A text is cut into tokens from front to back. Indentation opens and closes block collections, and
whether a node is the key of a pair is known only at the colon behind it: until then its place in
the tokens is kept, and the tokens that a key needs are put in there afterwards. -/
namespace Coalesce.Yaml
open Text

inductive Token where
  | streamEnd
  | documentStart
  | documentEnd
  | version (major minor : Nat)
  | tagMeaning (handle uri : String)
  | blockSequence
  | blockMapping
  | blockEnd
  | flowSequence
  | flowSequenceEnd
  | flowMapping
  | flowMappingEnd
  | entry
  | flowEntry
  | key
  | value
  | anchor (name : String)
  | reference (name : String)
  | tag (tag : Tag)
  | scalar (text : String) (style : ScalarStyle)
deriving DecidableEq

/-- A place where a key may turn out to have begun. A required key begins a line of a block mapping,
so that no other token can stand there. -/
structure KeyPlace where
  required : Bool
  position : Nat
  line : Nat
  offset : Nat
  column : Nat

/-- A key that has no colon by the end of its line, or 1024 octets on, is none. -/
def KeyPlace.isPast (k : KeyPlace) (c : Cursor) : Bool :=
  k.line < c.line || k.offset + 1024 < c.offset

/-- How far a text has been cut. `columns` are those of the open block collections and `outer` holds
a key place for each collection around the innermost flow collection, both innermost first. -/
structure Scan where
  cursor : Cursor
  tokens : Array Token := #[]
  columns : List Nat := []
  keyAllowed : Bool := true
  keyPlace : Option KeyPlace := none
  outer : List (Option KeyPlace) := []

namespace Scan

def inFlow (s : Scan) : Bool := !s.outer.isEmpty

def leastColumn (s : Scan) : Nat := s.columns.head?.elim 0 (· + 1)

def emit (s : Scan) (t : Token) : Scan := { s with tokens := s.tokens.push t }

def insert (s : Scan) (position : Nat) (t : Token) : Scan :=
  { s with
    tokens := (s.tokens.extract 0 position).push t
      ++ s.tokens.extract position s.tokens.size }

def mark (s : Scan) (n : Nat) (t : Token) : Scan :=
  { s.emit t with cursor := s.cursor.skip n }

/-- Opens a block collection at a column, if that is deeper than those that are open. Its token goes
to a position, or to the end. -/
def openBlock (s : Scan) (column : Nat) (position : Option Nat) (t : Token) : Scan :=
  if s.inFlow || s.columns.head?.any (column ≤ ·) then s
  else
    let s := { s with columns := column :: s.columns }
    position.elim (s.emit t) fun n => s.insert n t

def closeBlocks (s : Scan) (column : Nat) : Scan :=
  if s.inFlow then s
  else
    let closed := s.columns.takeWhile (column < ·)
    { s with
      columns := s.columns.drop closed.length
      tokens := s.tokens ++ closed.map fun _ => Token.blockEnd }

def closeAllBlocks (s : Scan) : Scan :=
  if s.inFlow then s
  else { s with columns := [], tokens := s.tokens ++ s.columns.map fun _ => Token.blockEnd }

def forgetKey (s : Scan) : Option Scan :=
  if s.keyPlace.any (·.required) then none else some { s with keyPlace := none }

def noteKey (s : Scan) : Option Scan :=
  if s.keyAllowed then do
    let s ← s.forgetKey
    let c := s.cursor
    return { s with
      keyPlace := some
        { required := !s.inFlow && s.columns.head? == some c.column
          position := s.tokens.size
          line := c.line
          offset := c.offset
          column := c.column } }
  else some s

def dropPast (c : Cursor) (k : Option KeyPlace) : Option KeyPlace :=
  k.filter fun k => !k.isPast c

/-- Gives up the key places that are past; a required one may not be. -/
def dropPastKeys (s : Scan) : Option Scan :=
  let past := (s.keyPlace :: s.outer).any fun k => k.any fun k => k.required && k.isPast s.cursor
  if past then none
  else some
    { s with
      keyPlace := dropPast s.cursor s.keyPlace
      outer := s.outer.map (dropPast s.cursor) }

def allowKey (s : Scan) (allowed : Bool) : Scan := { s with keyAllowed := allowed }

/-- Passes over blanks, comments and line breaks, and over a byte order mark that begins a line.
After a line break a key may follow, outside flow collections; where one may, a tab is no blank
there. -/
def skipGap (inFlow : Bool) : Nat → Bool → Cursor → Bool × Cursor
  | 0, keyAllowed, c => (keyAllowed, c)
  | fuel + 1, keyAllowed, c =>
    let c := if c.column == 0 && c.peek == some '\ufeff' then c.skip 1 else c
    let (_, c) := c.takeWhile fun x => x == ' ' || ((inFlow || !keyAllowed) && x == '\t')
    let c := if c.peek == some '#' then (c.takeWhile fun x => !isBreak x).2 else c
    if c.seesBreak then skipGap inFlow fuel (keyAllowed || !inFlow) c.skipBreak
    else (keyAllowed, c)

def toNextToken (s : Scan) : Scan :=
  let (keyAllowed, cursor) := skipGap s.inFlow (s.cursor.rest.length + 1) s.keyAllowed s.cursor
  { s with keyAllowed, cursor }

def readVersionNumber (c : Cursor) : Option (Nat × Cursor) :=
  let (digits, c) := c.takeWhile Char.isDigit
  if digits.isEmpty ∨ 9 < digits.length then none
  else some (digits.foldl (fun n d => n * 10 + (d.toNat - '0'.toNat)) 0, c)

def readVersion (c : Cursor) : Option (Token × Cursor) := do
  let (major, c) ← readVersionNumber (c.takeWhile isBlank).2
  if c.peek == some '.' then
    let (minor, c) ← readVersionNumber (c.skip 1)
    return (.version major minor, c)
  else none

def readTagMeaning (c : Cursor) : Option (Token × Cursor) := do
  let (handle, c) ← readDirectiveHandle (c.takeWhile isBlank).2
  if c.seesBlank then
    let (uri, c) ← readUri true [] false (c.takeWhile isBlank).2
    if c.isGapAt 0 then return (.tagMeaning handle uri, c) else none
  else none

def readDirective (c : Cursor) : Option (Token × Cursor) := do
  let (name, c) := (c.skip 1).takeWhile isWord
  let (t, c) ←
    match String.ofList name with
    | "YAML" => if c.isGapAt 0 then readVersion c else none
    | "TAG" => if c.isGapAt 0 then readTagMeaning c else none
    | _ => none
  let (_, c) := c.takeWhile isBlank
  let c := if c.peek == some '#' then (c.takeWhile fun x => !isBreak x).2 else c
  if c.isLineEnd then return (t, c.skipBreak) else none

def leaveDocument (s : Scan) : Option Scan := do
  return (← s.closeAllBlocks.forgetKey).allowKey false

def openFlow (s : Scan) (t : Token) : Option Scan := do
  let s ← s.noteKey
  return { (s.mark 1 t).allowKey true with keyPlace := none, outer := s.keyPlace :: s.outer }

def closeFlow (s : Scan) (t : Token) : Option Scan := do
  let s ← s.forgetKey
  return { (s.mark 1 t).allowKey false with
    keyPlace := s.outer.head?.getD none
    outer := s.outer.tail }

def startEntry (s : Scan) (t opening : Token) (keyAllowed : Bool) : Option Scan := do
  if !s.inFlow && !s.keyAllowed then none
  let s ← (s.openBlock s.cursor.column none opening).forgetKey
  return (s.mark 1 t).allowKey keyAllowed

/-- The colon of a pair. The key is the node at the current key place, or empty, or has a mark of
its own. -/
def startValue (s : Scan) : Option Scan := do
  match s.keyPlace with
  | some k =>
    let s := s.insert k.position .key
    let s := { s.openBlock k.column (some k.position) .blockMapping with keyPlace := none }
    return (s.mark 1 .value).allowKey false
  | none =>
    if !s.inFlow && !s.keyAllowed then none
    let s := s.openBlock s.cursor.column none .blockMapping
    return (s.mark 1 .value).allowKey !s.inFlow

def readName (c : Cursor) : Option (String × Cursor) :=
  let (word, c) := (c.skip 1).takeWhile isWord
  if word.isEmpty then none
  else if c.isGapAt 0 || c.sees fun x => "?:,]\x7d%@\x60".toList.contains x then
    some (String.ofList word, c)
  else none

def accept (s : Scan) (t : Token) (cursor : Cursor) (keyAllowed : Bool) : Scan :=
  { (s.emit t).allowKey keyAllowed with cursor }

def startName (s : Scan) (t : String → Token) : Option Scan := do
  let s ← s.noteKey
  let (name, c) ← readName s.cursor
  return s.accept (t name) c false

def startTag (s : Scan) : Option Scan := do
  let s ← s.noteKey
  let (tag, c) ← readTag s.inFlow s.cursor
  return s.accept (.tag tag) c false

def startBlockScalar (s : Scan) (isLiteral : Bool) : Option Scan := do
  let s ← s.forgetKey
  let (text, c) ← readBlock isLiteral s.leastColumn s.cursor
  let style := if isLiteral then ScalarStyle.literal else .folded
  return s.accept (.scalar (String.ofList text) style) c true

def startQuoted (s : Scan) (single : Bool) : Option Scan := do
  let s ← s.noteKey
  let (text, c) ← readQuoted single s.cursor
  let style := if single then ScalarStyle.singleQuoted else .doubleQuoted
  return s.accept (.scalar (String.ofList text) style) c false

def startPlain (s : Scan) : Option Scan := do
  let s ← s.noteKey
  let (text, lineEnded, c) ← readPlain s.inFlow s.leastColumn s.cursor
  return s.accept (.scalar (String.ofList text) .plain) c lineEnded

def isIndicator (x : Char) : Bool := "-?:,[]\x7b\x7d#&*!|>'\"%@\x60".toList.contains x

def isPlainStart (inFlow : Bool) (c : Cursor) (x : Char) : Bool :=
  !(isBlank x || isBreak x || isIndicator x)
    || (x == '-' && !(c.peekAt 1).any isBlank)
    || (!inFlow && (x == '?' || x == ':') && !c.isGapAt 1)

def readToken (s : Scan) (x : Char) : Option Scan := do
  let c := s.cursor
  let marksPair := s.inFlow || c.isGapAt 1
  if c.column == 0 && x == '%' then
    let s ← s.leaveDocument
    let (t, c) ← readDirective s.cursor
    return s.accept t c false
  else if c.seesDocumentMark '-' then return (← s.leaveDocument).mark 3 .documentStart
  else if c.seesDocumentMark '.' then return (← s.leaveDocument).mark 3 .documentEnd
  else if x == '[' then s.openFlow .flowSequence
  else if x == '\x7b' then s.openFlow .flowMapping
  else if x == ']' then s.closeFlow .flowSequenceEnd
  else if x == '\x7d' then s.closeFlow .flowMappingEnd
  else if x == ',' then return ((← s.forgetKey).mark 1 .flowEntry).allowKey true
  else if x == '-' && c.isGapAt 1 then s.startEntry .entry .blockSequence true
  else if x == '?' && marksPair then s.startEntry .key .blockMapping !s.inFlow
  else if x == ':' && marksPair then s.startValue
  else if x == '*' then s.startName .reference
  else if x == '&' then s.startName .anchor
  else if x == '!' then s.startTag
  else if (x == '|' || x == '>') && !s.inFlow then s.startBlockScalar (x == '|')
  else if x == '\'' || x == '"' then s.startQuoted (x == '\'')
  else if isPlainStart s.inFlow c x then s.startPlain
  else none

def readTokens : Nat → Scan → Option (List Token)
  | 0, _ => none
  | fuel + 1, s => do
    let s ← s.toNextToken.dropPastKeys
    let s := s.closeBlocks s.cursor.column
    match s.cursor.peek with
    | none => return ((← s.leaveDocument).emit .streamEnd).tokens.toList
    | some x => readTokens fuel (← s.readToken x)

end Scan

def tokens? (text : String) : Option (List Token) :=
  let chars := text.toList
  if chars.all isAllowed then Scan.readTokens (chars.length + 1) { cursor := { rest := chars } }
  else none

end Coalesce.Yaml
