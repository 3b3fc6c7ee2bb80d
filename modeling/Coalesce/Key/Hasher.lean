import Coalesce.Digest.Sha256
import Coalesce.Key
import Coalesce.Key.Datum
/-! # From requests to keys

The content hasher gives equal keys to requests of equal JSON form. A request without a JSON form
gets a key of its own, numbered by a counter that other requests leave alone. -/
namespace Coalesce.Key

def ofContent (j : Json) : Key :=
  ⟨Text.hexBytes (Sha256.digest j.text.toUTF8.toList)⟩

def unhashable (n : Nat) : Key := ⟨"unhashable-" ++ Text.decimalText n⟩

def ofForm (counter : Nat) : Option Json → Key × Nat
  | some j => (ofContent j, counter)
  | none => (unhashable counter, counter + 1)

def ofForms : Nat → List (Option Json) → List Key
  | _, [] => []
  | counter, form :: rest =>
    (ofForm counter form).1 :: ofForms (ofForm counter form).2 rest

def oneBucket : Key := ⟨"0"⟩

end Coalesce.Key
