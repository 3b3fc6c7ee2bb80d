import Coalesce.Json.Basic
/-! # Batch keys -/
namespace Coalesce

structure Key where
  text : String
deriving DecidableEq

namespace Key

def ofNat (n : Nat) : Key := ⟨Text.decimalText n⟩

def insertSorted (k : Key) : List Key → List Key
  | [] => [k]
  | x :: rest =>
    if k.text < x.text then k :: x :: rest
    else if k = x then x :: rest
    else x :: insertSorted k rest

def sorted (keys : List Key) : List Key := keys.foldr insertSorted []

end Key

end Coalesce
