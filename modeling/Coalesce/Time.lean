/-! # Spans and readings of a clock

Durations stay below `2 ^ 64` seconds. A reading plus a duration that reaches the horizon is no
reading at all, so such a timeout never fires. -/
namespace Coalesce

structure Duration where
  nanos : Nat
  bounded : nanos < UInt64.size * 1000000000
deriving DecidableEq

namespace Duration

instance : LE Duration := ⟨fun a b => a.nanos ≤ b.nanos⟩
instance : LT Duration := ⟨fun a b => a.nanos < b.nanos⟩
instance (a b : Duration) : Decidable (a ≤ b) := inferInstanceAs (Decidable (a.nanos ≤ b.nanos))
instance (a b : Duration) : Decidable (a < b) := inferInstanceAs (Decidable (a.nanos < b.nanos))

theorem le_def {a b : Duration} : a ≤ b ↔ a.nanos ≤ b.nanos := Iff.rfl

def zero : Duration := ⟨0, by decide⟩

def longest : Duration := ⟨UInt64.size * 1000000000 - 1, by decide⟩

def ofNanos (n : Nat) : Duration :=
  if h : n < UInt64.size * 1000000000 then ⟨n, h⟩ else longest

def ofParts (seconds nanos : Nat) : Duration := ofNanos (seconds * 1000000000 + nanos)

def ofMillis (ms : UInt64) : Duration :=
  ⟨ms.toNat * 1000000, by have := ms.toNat_lt_size; omega⟩

def millis (d : Duration) : Nat := d.nanos / 1000000

def millis64 (d : Duration) : UInt64 := UInt64.ofNat d.millis

def isZero (d : Duration) : Bool := d.nanos == 0

end Duration

structure Instant where
  nanos : Nat
deriving DecidableEq

namespace Instant

instance : LE Instant := ⟨fun a b => a.nanos ≤ b.nanos⟩
instance : LT Instant := ⟨fun a b => a.nanos < b.nanos⟩
instance (a b : Instant) : Decidable (a ≤ b) := inferInstanceAs (Decidable (a.nanos ≤ b.nanos))
instance (a b : Instant) : Decidable (a < b) := inferInstanceAs (Decidable (a.nanos < b.nanos))

theorem le_def {a b : Instant} : a ≤ b ↔ a.nanos ≤ b.nanos := Iff.rfl
theorem lt_def {a b : Instant} : a < b ↔ a.nanos < b.nanos := Iff.rfl

/-- The first count of nanoseconds that is no reading: `2 ^ 63` seconds. -/
def horizon : Nat := UInt64.size / 2 * 1000000000

def add? (t : Instant) (d : Duration) : Option Instant :=
  if t.nanos + d.nanos < horizon then some ⟨t.nanos + d.nanos⟩ else none

def since (t earlier : Instant) : Duration := Duration.ofNanos (t.nanos - earlier.nanos)

def ofMillis (ms : Nat) : Instant := ⟨ms * 1000000⟩

def millis (t : Instant) : Nat := t.nanos / 1000000

theorem add?_eq_some_iff {t u : Instant} {d : Duration} :
    t.add? d = some u ↔ t.nanos + d.nanos < horizon ∧ u.nanos = t.nanos + d.nanos := by
  cases u
  by_cases h : t.nanos + d.nanos < horizon
  · simp [add?, h, eq_comm]
  · simp [add?, h]

end Instant

end Coalesce
