import Coalesce.Json.Basic
/-! # Log entries

Lists of entries are in order of time; entries of one time are in order of their compact text. -/
namespace Coalesce

inductive LogLevel where
  | error
  | warn
  | info
  | debug
deriving DecidableEq

def LogLevel.name : LogLevel → String
  | .error => "error"
  | .warn => "warn"
  | .info => "info"
  | .debug => "debug"

structure LogEntry where
  level : LogLevel
  message : String
  fields : List (String × (String ⊕ Nat))
deriving DecidableEq

namespace LogEntry

def fieldJson : String ⊕ Nat → Json
  | .inl s => .string s
  | .inr n => .ofNat n

def toJson (t : Nat) (e : LogEntry) : Json :=
  .array [.ofNat t, .string e.level.name, .string e.message,
    .ofMembers (e.fields.map fun f => (f.1, fieldJson f.2))]

end LogEntry

/-- Entries in order of time, those of one time in order of a rank, and those of one rank in order
of their text. -/
def sortEntries {γ : Type} (time rank : γ → Nat) (toJson : γ → Json) (entries : List γ) : List γ :=
  let keyed := entries.map fun e => (time e, rank e, (toJson e).text, e)
  let before (a b : Nat × Nat × String × γ) : Bool :=
    a.1 < b.1 || (a.1 == b.1 &&
      (a.2.1 < b.2.1 || (a.2.1 == b.2.1 && !decide (b.2.2.1 < a.2.2.1))))
  (keyed.mergeSort before).map (·.2.2.2)

def sortLog (entries : List (Nat × LogEntry)) : List (Nat × LogEntry) :=
  sortEntries (·.1) (fun _ => 0) (fun e => e.2.toJson e.1) entries

end Coalesce
