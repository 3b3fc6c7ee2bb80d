import Coalesce.Number.Shortest
import Coalesce.Text.Hex
/-! # JSON values and their compact text

An object lists its members in increasing order of their names, which is the order of the names'
bytes; the text then does not depend on the order in which members were put in. -/
namespace Coalesce

inductive JsonNumber where
  | integer (value : Int)
  | real (value : Double) (finite : value.isFinite = true)
deriving DecidableEq

inductive Json where
  | null
  | bool (value : Bool)
  | number (value : JsonNumber)
  | string (value : String)
  | array (items : List Json)
  | object (members : List (String × Json))

namespace Json

def insertMember (name : String) (value : Json) : List (String × Json) → List (String × Json)
  | [] => [(name, value)]
  | (other, held) :: rest =>
    if name < other then (name, value) :: (other, held) :: rest
    else if name = other then (name, value) :: rest
    else (other, held) :: insertMember name value rest

/-- The object with the given members. Of members with one name the last one counts. -/
def ofMembers (members : List (String × Json)) : Json :=
  .object (members.foldl (fun sorted m => insertMember m.1 m.2 sorted) [])

def ofNat (n : Nat) : Json := .number (.integer n)

def ofBinary (x : Double) : Json :=
  if h : x.isFinite = true then .number (.real x h) else .null

def member? (name : String) : Json → Option Json
  | .object members => (members.find? (·.1 = name)).map (·.2)
  | _ => none

def escape (c : Char) : List Char :=
  if c = '"' then ['\\', '"']
  else if c = '\\' then ['\\', '\\']
  else if c = '\x08' then ['\\', 'b']
  else if c = '\x0c' then ['\\', 'f']
  else if c = '\n' then ['\\', 'n']
  else if c = '\r' then ['\\', 'r']
  else if c = '\t' then ['\\', 't']
  else if c.toNat < 0x20 then '\\' :: 'u' :: '0' :: '0' :: Text.hexByte (UInt8.ofNat c.toNat)
  else [c]

def renderString (s : String) : List Char := '"' :: s.toList.flatMap escape ++ ['"']

def renderInteger (n : Int) : List Char :=
  if n < 0 then '-' :: Text.decimal n.natAbs else Text.decimal n.natAbs

def renderNumber : JsonNumber → List Char
  | .integer n => renderInteger n
  | .real x _ => NumberLayout.double.renderBinary x

mutual

def render : Json → List Char
  | .null => ['n', 'u', 'l', 'l']
  | .bool true => ['t', 'r', 'u', 'e']
  | .bool false => ['f', 'a', 'l', 's', 'e']
  | .number n => renderNumber n
  | .string s => renderString s
  | .array items => '[' :: renderItems items ++ [']']
  | .object members => '{' :: renderMembers members ++ ['}']

def renderItems : List Json → List Char
  | [] => []
  | [item] => render item
  | item :: rest => render item ++ ',' :: renderItems rest

def renderMembers : List (String × Json) → List Char
  | [] => []
  | [(name, value)] => renderString name ++ ':' :: render value
  | (name, value) :: rest => renderString name ++ ':' :: render value ++ ',' :: renderMembers rest

end

def text (j : Json) : String := String.ofList j.render

end Json

end Coalesce
