import Coalesce.Json.Skip
import Coalesce.Settings.Draft
import Coalesce.Text.Quoted
/-! # Settings as JSON

An object is read by the names of its members, each at most once, in any order; members with other
names are passed over. An array is read by position. What is missing keeps its default. -/
namespace Coalesce.Settings
open Json

def toJsonText (s : Settings) : String :=
  Json.text <| .object
    [(Field.key .name, .string s.name),
     (Field.key .idleTimeout, .ofNat s.idleTimeoutMs.toNat),
     (Field.key .maxTimeout, .ofNat s.maxTimeoutMs.toNat),
     (Field.key .maxRequestWorkers, .ofNat s.maxRequestWorkers.toNat)]

def unfitType (what expected : String) : JsonFault :=
  .unfit ("invalid type: " ++ what ++ ", expected " ++ expected)

def describeNumber : JsonNumber → String
  | .integer n => "integer `" ++ String.ofList (renderInteger n) ++ "`"
  | .real x h => "floating point `" ++ String.ofList (renderNumber (.real x h)) ++ "`"

/-- The fault of a value that is not of the expected type. Its text is read as far as the
description needs it. -/
def faultOf (expected : String) (cs : List Char) : JsonFault :=
  let described : Except JsonFault String :=
    match cs with
    | [] => .error .ended
    | 'n' :: rest => (readWord ['u', 'l', 'l'] rest).map fun _ => "null"
    | 't' :: rest => (readWord ['r', 'u', 'e'] rest).map fun _ => "boolean `true`"
    | 'f' :: rest => (readWord ['a', 'l', 's', 'e'] rest).map fun _ => "boolean `false`"
    | '"' :: rest => (readString rest).map fun r => "string " ++ Text.quoted r.1
    | '[' :: _ => .ok "sequence"
    | '{' :: _ => .ok "map"
    | c :: rest =>
      if c = '-' ∨ isDigit c then (readNumber (c :: rest)).map fun r => describeNumber r.1
      else .error .malformed
  match described with
  | .ok what => unfitType what expected
  | .error fault => fault

def readCount (expected : String) (cs : List Char) : Except JsonFault (UInt64 × List Char) :=
  match cs with
  | [] => .error .ended
  | c :: _ =>
    if c = '-' ∨ isDigit c then
      match readNumber cs with
      | .error fault => .error fault
      | .ok (.integer n, rest) =>
        if 0 ≤ n then .ok (UInt64.ofNat n.toNat, rest)
        else .error (.unfit ("invalid value: " ++ describeNumber (.integer n) ++ ", expected "
          ++ expected))
      | .ok (n, _) => .error (unfitType (describeNumber n) expected)
    else .error (faultOf expected cs)

def readField (f : Field) (cs : List Char) : Except JsonFault ((String ⊕ UInt64) × List Char) :=
  let cs := skipSpace cs
  match f, cs with
  | .name, '"' :: rest => (readString rest).map fun r => (.inl r.1, r.2)
  | .name, _ => .error (faultOf f.expected cs)
  | _, _ => (readCount f.expected cs).map fun r => (.inr r.1, r.2)

def readColon (cs : List Char) : Except JsonFault (List Char) :=
  match skipSpace cs with
  | [] => .error .ended
  | ':' :: rest => .ok rest
  | _ => .error .malformed

def readMember (d : Draft) : List Char → Except JsonFault (Draft × List Char)
  | '"' :: cs => do
    let (name, cs) ← readString cs
    match Field.named? name with
    | some f =>
      if d.has f then .error (.unfit ("duplicate field `" ++ f.key ++ "`"))
      else
        let (value, cs) ← readField f (← readColon cs)
        return (d.set f value, cs)
    | none => return (d, ← skipValue (← readColon cs))
  | [] => .error .ended
  | _ => .error .malformed

def readMembersOn : Nat → Draft → List Char → Except JsonFault (Draft × List Char)
  | 0, _, _ => .error .ended
  | fuel + 1, d, cs => do
    let (d, cs) ← readMember d (skipSpace cs)
    match skipSpace cs with
    | [] => .error .ended
    | '}' :: rest => return (d, rest)
    | ',' :: rest => readMembersOn fuel d rest
    | _ => .error .malformed

def readItemsOn : List Field → Draft → List Char → Except JsonFault (Draft × List Char)
  | fields, d, cs =>
    match skipSpace cs with
    | [] => .error .ended
    | ']' :: rest => .ok (d, rest)
    | ',' :: rest =>
      match fields with
      | [] => .error .malformed
      | f :: fields =>
        match skipSpace rest with
        | ']' :: _ => .error .malformed
        | rest =>
          match readField f rest with
          | .error fault => .error fault
          | .ok (value, rest) => readItemsOn fields (d.set f value) rest
    | _ => .error .malformed

def readDraft (cs : List Char) : Except JsonFault (Draft × List Char) :=
  let cs := skipSpace cs
  match cs with
  | '{' :: rest =>
    match skipSpace rest with
    | '}' :: rest => .ok ({}, rest)
    | rest => readMembersOn (rest.length + 1) {} rest
  | '[' :: rest =>
    match skipSpace rest with
    | [] => .error .ended
    | ']' :: rest => .ok ({}, rest)
    | rest => do
      let (value, rest) ← readField .name rest
      readItemsOn [.idleTimeout, .maxTimeout, .maxRequestWorkers] (Draft.set {} .name value) rest
  | _ => .error (faultOf "struct BatcherSettings" cs)

def ofJsonText (s : String) : Except JsonFault Settings := do
  let (d, rest) ← readDraft s.toList
  if (skipSpace rest).isEmpty then return d.fillFrom {} else .error .malformed

end Coalesce.Settings
