import Coalesce.Text.Hex
import Coalesce.Yaml.Cursor
/-! # YAML scalars

Plain, quoted and block scalars, each from its first character on. -/
namespace Coalesce.Yaml
open Text

inductive ScalarStyle where
  | plain
  | singleQuoted
  | doubleQuoted
  | literal
  | folded
deriving DecidableEq

/-- Blanks, or line breaks, inside a scalar. Once a line has ended, blanks no longer count. -/
structure Gap where
  blanks : List Char := []
  broken : Bool := false
  firstBreak : List Char := []
  laterBreaks : List Char := []

/-- The gap as a part of the scalar: blanks stay, a single line break becomes a space, and further
ones stay. -/
def Gap.text (g : Gap) : List Char :=
  if !g.broken then g.blanks
  else if g.firstBreak = ['\n'] then if g.laterBreaks.isEmpty then [' '] else g.laterBreaks
  else g.firstBreak ++ g.laterBreaks

def readGap (least : Option Nat) : Nat → Gap → Cursor → Option (Gap × Cursor)
  | 0, _, _ => none
  | fuel + 1, g, c =>
    match c.peek with
    | none => some (g, c)
    | some x =>
      if isBlank x then
        if g.broken && x == '\t' && least.any (c.column < ·) then none
        else
          let g := if g.broken then g else { g with blanks := g.blanks ++ [x] }
          readGap least fuel g (c.skip 1)
      else if isBreak x then
        let g :=
          if g.broken then { g with laterBreaks := g.laterBreaks ++ c.breakText }
          else { g with blanks := [], broken := true, firstBreak := c.breakText }
        readGap least fuel g c.skipBreak
      else some (g, c)

def isFlowMark (c : Char) : Bool :=
  c == ',' || c == '[' || c == ']' || c == '{' || c == '}'

/-- The characters of a plain scalar up to a gap or an indicator that ends it. Inside a flow
collection, a colon in front of one of the collection's marks is refused. -/
def readPlainRun (inFlow : Bool) (done : List Char) : List Char → Option (List Char)
  | [] => some done.reverse
  | x :: rest =>
    if isBlank x || isBreak x then some done.reverse
    else if inFlow && x == ':' && rest.head?.any (fun y => isFlowMark y || y == '?') then none
    else if x == ':' && rest.head?.all (fun y => isBlank y || isBreak y) then some done.reverse
    else if inFlow && isFlowMark x then some done.reverse
    else readPlainRun inFlow (x :: done) rest

/-- Reads a plain scalar on. The result says whether a line has ended after its last part. -/
def readPlainOn (inFlow : Bool) (least : Nat) :
    Nat → List Char → Gap → Cursor → Option (List Char × Bool × Cursor)
  | 0, _, _, _ => none
  | fuel + 1, done, gap, c =>
    if c.seesDocumentIndicator || c.peek == some '#' then some (done, gap.broken, c)
    else do
      let run ← readPlainRun inFlow [] c.rest
      let next := c.skip run.length
      let (done, gap) := if run.isEmpty then (done, gap) else (done ++ gap.text ++ run, {})
      if !(next.seesBlank || next.seesBreak) then return (done, gap.broken, next)
      let (gap, next) ← readGap (some least) (next.rest.length + 1) gap next
      if !inFlow && next.column < least then return (done, gap.broken, next)
      readPlainOn inFlow least fuel done gap next

def readPlain (inFlow : Bool) (least : Nat) (c : Cursor) : Option (List Char × Bool × Cursor) :=
  readPlainOn inFlow least (c.rest.length + 1) [] {} c

def readCode : Nat → Nat → List Char → Option Nat
  | 0, value, _ => some value
  | _ + 1, _, [] => none
  | n + 1, value, x :: rest => do readCode n (value * 16 + (← hexDigit? x)) rest

def readEscape (cs : List Char) : Option (Char × Nat) :=
  let coded (n : Nat) (cs : List Char) : Option (Char × Nat) := do
    let value ← readCode n 0 cs
    if (0xD800 ≤ value ∧ value ≤ 0xDFFF) ∨ 0x10FFFF < value then none
    else return (Char.ofNat value, n + 1)
  match cs with
  | '0' :: _ => some ('\x00', 1)
  | 'a' :: _ => some ('\x07', 1)
  | 'b' :: _ => some ('\x08', 1)
  | 't' :: _ => some ('\t', 1)
  | '\t' :: _ => some ('\t', 1)
  | 'n' :: _ => some ('\n', 1)
  | 'v' :: _ => some ('\x0b', 1)
  | 'f' :: _ => some ('\x0c', 1)
  | 'r' :: _ => some ('\r', 1)
  | 'e' :: _ => some ('\x1b', 1)
  | ' ' :: _ => some (' ', 1)
  | '"' :: _ => some ('"', 1)
  | '/' :: _ => some ('/', 1)
  | '\\' :: _ => some ('\\', 1)
  | 'N' :: _ => some ('\u0085', 1)
  | '_' :: _ => some ('\u00a0', 1)
  | 'L' :: _ => some ('\u2028', 1)
  | 'P' :: _ => some ('\u2029', 1)
  | 'x' :: rest => coded 2 rest
  | 'u' :: rest => coded 4 rest
  | 'U' :: rest => coded 8 rest
  | _ => none

/-- The characters of a quoted scalar up to a gap or its closing quote. The gap of the result says
whether an escaped line break has ended the line. -/
def readQuotedRun (single : Bool) :
    Nat → List Char → Cursor → Option (List Char × Gap × Cursor)
  | 0, _, _ => none
  | fuel + 1, done, c =>
    match c.rest with
    | [] => some (done.reverse, {}, c)
    | x :: rest =>
      if isBlank x || isBreak x then some (done.reverse, {}, c)
      else if single then
        if x == '\'' then
          if rest.head? == some '\'' then readQuotedRun single fuel ('\'' :: done) (c.skip 2)
          else some (done.reverse, {}, c)
        else readQuotedRun single fuel (x :: done) (c.skip 1)
      else if x == '"' then some (done.reverse, {}, c)
      else if x == '\\' then
        if rest.head?.any isBreak then
          some (done.reverse, { broken := true }, (c.skip 1).skipBreak)
        else
          match readEscape rest with
          | none => none
          | some (y, n) => readQuotedRun single fuel (y :: done) (c.skip (n + 1))
      else readQuotedRun single fuel (x :: done) (c.skip 1)

def readQuotedOn (single : Bool) : Nat → List Char → Cursor → Option (List Char × Cursor)
  | 0, _, _ => none
  | fuel + 1, done, c =>
    if c.seesDocumentIndicator || c.atEnd then none
    else do
      let (run, gap, c) ← readQuotedRun single (c.rest.length + 1) [] c
      let done := done ++ run
      if c.peek == some (if single then '\'' else '"') then return (done, c.skip 1)
      let (gap, c) ← readGap none (c.rest.length + 1) gap c
      readQuotedOn single fuel (done ++ gap.text) c

def readQuoted (single : Bool) (c : Cursor) : Option (List Char × Cursor) :=
  readQuotedOn single (c.rest.length + 1) [] (c.skip 1)

inductive Chomping where
  | strip
  | clip
  | keep
deriving DecidableEq

def readIndentDigit (c : Cursor) : Option (Nat × Cursor) :=
  match c.peek with
  | some x =>
    if '1' ≤ x ∧ x ≤ '9' then some (x.toNat - '0'.toNat, c.skip 1)
    else if x == '0' then none
    else some (0, c)
  | none => some (0, c)

def readChomping (c : Cursor) : Chomping × Cursor :=
  match c.peek with
  | some '+' => (.keep, c.skip 1)
  | some '-' => (.strip, c.skip 1)
  | _ => (.clip, c)

def readBlockHeader (c : Cursor) : Option (Chomping × Nat × Cursor) := do
  let (chomping, c) := readChomping c
  let (digit, c) ← readIndentDigit c
  let (chomping, c) := if chomping = .clip ∧ digit ≠ 0 then readChomping c else (chomping, c)
  let (_, c) := c.takeWhile isBlank
  let c := if c.peek == some '#' then (c.takeWhile fun x => !isBreak x).2 else c
  if c.isLineEnd then return (chomping, digit, c.skipBreak) else none

/-- Empty lines before a line of a block scalar. A tab may not stand in the indentation. Where the
indentation is not known (`indent = 0`), the widest column seen is returned with the breaks. -/
def readBlockBreaks (indent : Nat) :
    Nat → List Char → Nat → Cursor → Option (List Char × Nat × Cursor)
  | 0, _, _, _ => none
  | fuel + 1, done, widest, c =>
    let spaces := c.rest.takeWhile (· == ' ')
    let n := if indent = 0 then spaces.length else min spaces.length (indent - c.column)
    let c := c.skip n
    let widest := max widest c.column
    if (indent = 0 || c.column < indent) && c.peek == some '\t' then none
    else if c.seesBreak then
      readBlockBreaks indent fuel (done ++ c.breakText) widest c.skipBreak
    else some (done, widest, c)

/-- The lines of a block scalar. `first` is the break after the line before, `breaks` those of the
empty lines since; a line that begins with a blank is not folded. -/
def readBlockLines (isLiteral : Bool) (indent : Nat) :
    Nat → List Char → List Char → List Char → Bool → Cursor →
      Option (List Char × List Char × List Char × Cursor)
  | 0, _, _, _, _, _ => none
  | fuel + 1, done, first, breaks, leadingBlank, c =>
    if c.column = indent ∧ !c.atEnd then do
      let blank := c.seesBlank
      let joined :=
        if !isLiteral && first == ['\n'] && !leadingBlank && !blank then
          if breaks.isEmpty then [' '] else []
        else first
      let (line, c) := c.takeWhile fun x => !isBreak x
      let first := c.breakText
      let c := c.skipBreak
      let done := done ++ joined ++ breaks ++ line
      let (breaks, _, c) ← readBlockBreaks indent (c.rest.length + 1) [] 0 c
      readBlockLines isLiteral indent fuel done first breaks blank c
    else some (done, first, breaks, c)

/-- A block scalar, from its indicator on. Its lines begin at the column `least` or after it, and
a given indentation counts from the column before `least`. -/
def readBlock (isLiteral : Bool) (least : Nat) (c : Cursor) : Option (List Char × Cursor) := do
  let (chomping, digit, c) ← readBlockHeader (c.skip 1)
  let given := if digit = 0 then 0 else least - 1 + digit
  let (breaks, widest, c) ← readBlockBreaks given (c.rest.length + 1) [] 0 c
  let indent := if given = 0 then max widest (max least 1) else given
  let (text, first, breaks, c) ←
    readBlockLines isLiteral indent (c.rest.length + 1) [] [] breaks false c
  let tail := match chomping with
    | .strip => []
    | .clip => first
    | .keep => first ++ breaks
  return (text ++ tail, c)

end Coalesce.Yaml
