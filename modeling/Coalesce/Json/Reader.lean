import Coalesce.Json.Token
/-! # Reading a JSON text as a value -/
namespace Coalesce.Json
open Text

mutual

def readValueIn : Nat → List Char → Except JsonFault (Json × List Char)
  | 0, _ => .error .ended
  | fuel + 1, cs =>
    match skipSpace cs with
    | [] => .error .ended
    | 'n' :: rest => do return (.null, ← readWord ['u', 'l', 'l'] rest)
    | 't' :: rest => do return (.bool true, ← readWord ['r', 'u', 'e'] rest)
    | 'f' :: rest => do return (.bool false, ← readWord ['a', 'l', 's', 'e'] rest)
    | '"' :: rest => do
      let (s, rest) ← readString rest
      return (.string s, rest)
    | '[' :: rest =>
      match skipSpace rest with
      | ']' :: rest => .ok (.array [], rest)
      | rest => do
        let (items, rest) ← readItems fuel [] rest
        return (.array items, rest)
    | '{' :: rest =>
      match skipSpace rest with
      | '}' :: rest => .ok (.object [], rest)
      | rest => do
        let (members, rest) ← readMembers fuel [] rest
        return (ofMembers members, rest)
    | c :: rest =>
      if c = '-' ∨ isDigit c then do
        let (n, rest) ← readNumber (c :: rest)
        return (.number n, rest)
      else .error .malformed

def readItems : Nat → List Json → List Char → Except JsonFault (List Json × List Char)
  | 0, _, _ => .error .ended
  | fuel + 1, done, cs => do
    let (item, rest) ← readValueIn fuel cs
    match skipSpace rest with
    | [] => .error .ended
    | ',' :: rest => readItems fuel (item :: done) rest
    | ']' :: rest => return ((item :: done).reverse, rest)
    | _ => .error .malformed

def readMembers : Nat → List (String × Json) → List Char →
    Except JsonFault (List (String × Json) × List Char)
  | 0, _, _ => .error .ended
  | fuel + 1, done, cs =>
    match skipSpace cs with
    | [] => .error .ended
    | '"' :: rest => do
      let (name, rest) ← readString rest
      match skipSpace rest with
      | [] => .error .ended
      | ':' :: rest =>
        let (value, rest) ← readValueIn fuel rest
        match skipSpace rest with
        | [] => .error .ended
        | ',' :: rest => readMembers fuel ((name, value) :: done) rest
        | '}' :: rest => return (((name, value) :: done).reverse, rest)
        | _ => .error .malformed
      | _ => .error .malformed
    | _ => .error .malformed

end

def parse (s : String) : Except JsonFault Json := do
  let cs := s.toList
  let (value, rest) ← readValueIn (2 * cs.length + 2) cs
  if (skipSpace rest).isEmpty then return value else .error .malformed

end Coalesce.Json
