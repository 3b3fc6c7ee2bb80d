import Coalesce.Json.Token
/-! # Passing over a JSON value

The grammar is checked, but no value is built: numbers may have any size, escapes any code, and
values any depth. The brackets that are open are kept in a list. -/
namespace Coalesce.Json
open Text

def skipEscape : List Char → Except JsonFault (List Char)
  | [] => .error .ended
  | 'u' :: cs => (readHex4 cs).map (·.2)
  | c :: cs => if c ∈ ['"', '\\', '/', 'b', 'f', 'n', 'r', 't'] then .ok cs else .error .malformed

theorem skipEscape_shorter {cs rest : List Char} (h : skipEscape cs = .ok rest) :
    rest.length < cs.length := by
  unfold skipEscape at h
  split at h
  · simp at h
  · rename_i tail
    cases hex : readHex4 tail with
    | error e => simp [hex, Except.map] at h
    | ok r =>
      obtain ⟨n, left⟩ := r
      have := readHex4_shorter hex
      simp [hex, Except.map] at h
      simp [← h]
      omega
  · split at h
    · simp only [Except.ok.injEq] at h
      simp [← h]
    · simp at h

def skipString (cs : List Char) : Except JsonFault (List Char) :=
  match cs with
  | [] => .error .ended
  | '"' :: rest => .ok rest
  | '\\' :: rest =>
    match _h : skipEscape rest with
    | .error e => .error e
    | .ok rest' => skipString rest'
  | c :: rest => if c.toNat < 0x20 then .error .malformed else skipString rest
termination_by cs.length
decreasing_by
  · have := skipEscape_shorter _h
    simp only [List.length_cons]
    omega
  · simp

/-- One or more digits; without one the text is malformed, also at its end. -/
def skipDigits (cs : List Char) : Except JsonFault (List Char) :=
  match takeDigits cs with
  | ([], _) => .error .malformed
  | (_, rest) => .ok rest

def skipWhole : List Char → Except JsonFault (List Char)
  | '0' :: c :: rest => if isDigit c then .error .malformed else .ok (c :: rest)
  | cs => skipDigits cs

def skipFraction : List Char → Except JsonFault (List Char)
  | '.' :: cs => skipDigits cs
  | cs => .ok cs

def skipSign : List Char → List Char
  | '+' :: cs => cs
  | '-' :: cs => cs
  | cs => cs

def skipExponent : List Char → Except JsonFault (List Char)
  | 'e' :: cs => skipDigits (skipSign cs)
  | 'E' :: cs => skipDigits (skipSign cs)
  | cs => .ok cs

def skipMagnitude (cs : List Char) : Except JsonFault (List Char) := do
  skipExponent (← skipFraction (← skipWhole cs))

inductive Bracket where
  | list
  | object
deriving DecidableEq

def Bracket.closing : Bracket → Char
  | .list => ']'
  | .object => '}'

def skipName (cs : List Char) : Except JsonFault (List Char) :=
  match skipSpace cs with
  | [] => .error .ended
  | '"' :: rest => do
    match skipSpace (← skipString rest) with
    | [] => .error .ended
    | ':' :: rest => .ok rest
    | _ => .error .malformed
  | _ => .error .malformed

/-- What the text goes on with inside a bracket before the next value. -/
def enter (b : Bracket) (cs : List Char) : Except JsonFault (List Char) :=
  match b with
  | .list => .ok cs
  | .object => skipName cs

inductive SkipAt where
  | before
  | behind

inductive SkipStep where
  | go (place : SkipAt) (stack : List Bracket) (rest : List Char)
  | out (rest : List Char)

def stepOpen (b : Bracket) (stack : List Bracket) (cs : List Char) : Except JsonFault SkipStep :=
  match skipSpace cs with
  | [] => .error .ended
  | c :: rest =>
    if c = b.closing then .ok (.go .behind stack rest)
    else (enter b (c :: rest)).map (.go .before (b :: stack))

def stepBefore (stack : List Bracket) (cs : List Char) : Except JsonFault SkipStep :=
  match skipSpace cs with
  | [] => .error .ended
  | 'n' :: rest => (readWord ['u', 'l', 'l'] rest).map (.go .behind stack)
  | 't' :: rest => (readWord ['r', 'u', 'e'] rest).map (.go .behind stack)
  | 'f' :: rest => (readWord ['a', 'l', 's', 'e'] rest).map (.go .behind stack)
  | '"' :: rest => (skipString rest).map (.go .behind stack)
  | '[' :: rest => stepOpen .list stack rest
  | '{' :: rest => stepOpen .object stack rest
  | '-' :: rest => (skipMagnitude rest).map (.go .behind stack)
  | c :: rest =>
    if isDigit c then (skipMagnitude (c :: rest)).map (.go .behind stack) else .error .malformed

def stepBehind (stack : List Bracket) (cs : List Char) : Except JsonFault SkipStep :=
  match stack with
  | [] => .ok (.out cs)
  | b :: outer =>
    match skipSpace cs with
    | [] => .error .ended
    | ',' :: rest => (enter b rest).map (.go .before (b :: outer))
    | c :: rest => if c = b.closing then .ok (.go .behind outer rest) else .error .malformed

/-- Goes on token by token. Every step but the last one takes a character, so the length of the
text bounds their number. -/
def skipOn : Nat → SkipAt → List Bracket → List Char → Except JsonFault (List Char)
  | 0, _, _, _ => .error .ended
  | fuel + 1, place, stack, cs => do
    let step ← match place with
      | .before => stepBefore stack cs
      | .behind => stepBehind stack cs
    match step with
    | .out rest => .ok rest
    | .go place stack rest => skipOn fuel place stack rest

def skipValue (cs : List Char) : Except JsonFault (List Char) :=
  skipOn (cs.length + 1) .before [] cs

end Coalesce.Json
