import Coalesce.Json.Basic
/-! # Typed values and their JSON form

A request is a value of some data type. Its JSON form forgets part of the type; a value may also
have no JSON form, as may a map whose keys are not texts of one kind or another. -/
namespace Coalesce

inductive Datum where
  | bool (value : Bool)
  | int (value : Int)
  | wide (value : Int)
  | single (value : Single)
  | double (value : Double)
  | char (value : Char)
  | string (value : String)
  | bytes (value : List UInt8)
  | none
  | some (value : Datum)
  | unit
  | newtype (value : Datum)
  | sequence (items : List Datum)
  | map (entries : List (Datum × Datum))
  | record (fields : List (String × Datum))
  | unitVariant (variantName : String)
  | newtypeVariant (variantName : String) (value : Datum)
  | tupleVariant (variantName : String) (items : List Datum)
  | recordVariant (variantName : String) (fields : List (String × Datum))
  | failing
deriving Inhabited

namespace Datum

/-- An integer of more than 64 bits has a JSON form only where 64 bits, signed or not, hold it. -/
def wideJson? (n : Int) : Option Json :=
  if -9223372036854775808 ≤ n ∧ n < UInt64.size then Option.some (.number (.integer n))
  else Option.none

def keyText? : Datum → Option String
  | .bool value => Option.some (if value then "true" else "false")
  | .int value => Option.some (String.ofList (Json.renderInteger value))
  | .wide value => Option.some (String.ofList (Json.renderInteger value))
  | .single value =>
    if value.isFinite then Option.some (String.ofList (NumberLayout.single.renderBinary value))
    else Option.none
  | .double value =>
    if value.isFinite then Option.some (String.ofList (NumberLayout.double.renderBinary value))
    else Option.none
  | .char value => Option.some (String.singleton value)
  | .string value => Option.some value
  | .newtype value => value.keyText?
  | .unitVariant variantName => Option.some variantName
  | _ => Option.none

mutual

def toJson? : Datum → Option Json
  | .bool value => Option.some (.bool value)
  | .int value => Option.some (.number (.integer value))
  | .wide value => wideJson? value
  | .single value => Option.some (.ofBinary (value.convert .double))
  | .double value => Option.some (.ofBinary value)
  | .char value => Option.some (.string (String.singleton value))
  | .string value => Option.some (.string value)
  | .bytes value => Option.some (.array (value.map fun b => .ofNat b.toNat))
  | .none => Option.some .null
  | .some value => value.toJson?
  | .unit => Option.some .null
  | .newtype value => value.toJson?
  | .sequence items => (itemsJson? items).map .array
  | .map entries => (entriesJson? entries).map .ofMembers
  | .record fields => (fieldsJson? fields).map .ofMembers
  | .unitVariant variantName => Option.some (.string variantName)
  | .newtypeVariant variantName value => value.toJson?.map fun j => .object [(variantName, j)]
  | .tupleVariant variantName items =>
    (itemsJson? items).map fun js => .object [(variantName, .array js)]
  | .recordVariant variantName fields =>
    (fieldsJson? fields).map fun ms => .object [(variantName, .ofMembers ms)]
  | .failing => Option.none

def itemsJson? : List Datum → Option (List Json)
  | [] => Option.some []
  | item :: rest => do return (← item.toJson?) :: (← itemsJson? rest)

def entriesJson? : List (Datum × Datum) → Option (List (String × Json))
  | [] => Option.some []
  | (key, value) :: rest => do
    return (← key.keyText?, ← value.toJson?) :: (← entriesJson? rest)

def fieldsJson? : List (String × Datum) → Option (List (String × Json))
  | [] => Option.some []
  | (name, value) :: rest => do return (name, ← value.toJson?) :: (← fieldsJson? rest)

end

end Datum

end Coalesce
