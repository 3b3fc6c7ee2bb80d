import Coalesce.Settings.Draft
import Coalesce.Text.Digits
import Coalesce.Yaml.Node
/-! # Settings as YAML

A mapping is read by its keys, each at most once, in any order; pairs with other keys are passed
over. What is missing keeps its default, and an empty document is the defaults. -/
namespace Coalesce.Settings
open Text Yaml

def readRadix (base value : Nat) : List Char → Option Nat
  | [] => some value
  | c :: rest => do
    let d ← hexDigit? c
    if d < base ∧ value * base + d < UInt64.size then readRadix base (value * base + d) rest
    else none

def radixNumber? (base : Nat) (digits : List Char) : Option Nat :=
  if digits.isEmpty then none else readRadix base 0 digits

/-- An unsigned 64-bit number: a plus sign if there is one, then hexadecimal, octal or binary digits
after the mark of their base, or decimal digits without leading zeros. -/
def plainNumber? (text : List Char) : Option Nat :=
  let digits := match text with
    | '+' :: rest => rest
    | _ => text
  match digits with
  | '0' :: 'x' :: rest => radixNumber? 16 rest
  | '0' :: 'o' :: rest => radixNumber? 8 rest
  | '0' :: 'b' :: rest => radixNumber? 2 rest
  | '0' :: _ :: _ => none
  | _ => radixNumber? 10 digits

def integerTag : String := "tag:yaml.org,2002:int"

/-- A number is a plain scalar, or a literal one whose tag says so. -/
def count? : Node → Option UInt64
  | .scalar _ tag style text =>
    if style = .plain ∨ (style = .literal ∧ tag = some integerTag) then
      (plainNumber? text.toList).map UInt64.ofNat
    else none
  | _ => none

def text? : Node → Option String
  | .scalar _ _ _ text => some text
  | _ => none

def fieldValue? : Field → Node → Option (String ⊕ UInt64)
  | .name, n => (text? n).map .inl
  | _, n => (count? n).map .inr

def addPair (root : Node) (d : Draft) (pair : Node × Node) : Option Draft := do
  match Field.named? (← text? (← root.resolve pair.1)) with
  | some f =>
    if d.has f then none else return d.set f (← fieldValue? f (← root.resolve pair.2))
  | none => return d

def ofNode (root : Node) : Option Settings :=
  match root with
  | .scalar _ _ .plain "" => some {}
  | .mapping _ pairs => do return (← pairs.foldlM (addPair root) {}).fillFrom {}
  | _ => none

def ofYamlText (s : String) : Option Settings := do ofNode (← document? s)

end Coalesce.Settings
