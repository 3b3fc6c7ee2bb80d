import Coalesce.Settings
/-! # Fields of the settings

A text gives some of the fields, each by its key. -/
namespace Coalesce.Settings

inductive Field where
  | name
  | idleTimeout
  | maxTimeout
  | maxRequestWorkers
deriving DecidableEq

namespace Field

def all : List Field := [.name, .idleTimeout, .maxTimeout, .maxRequestWorkers]

def key : Field → String
  | .name => "name"
  | .idleTimeout => "idle_timeout_ms"
  | .maxTimeout => "max_timeout_ms"
  | .maxRequestWorkers => "max_request_workers"

def named? (s : String) : Option Field := all.find? fun f => f.key = s

def expected : Field → String
  | .name => "a string"
  | .idleTimeout => "u64"
  | .maxTimeout => "u64"
  | .maxRequestWorkers => "usize"

end Field

structure Draft where
  name : Option String := none
  idleTimeout : Option UInt64 := none
  maxTimeout : Option UInt64 := none
  maxRequestWorkers : Option UInt64 := none
deriving DecidableEq

namespace Draft

def has (d : Draft) : Field → Bool
  | .name => d.name.isSome
  | .idleTimeout => d.idleTimeout.isSome
  | .maxTimeout => d.maxTimeout.isSome
  | .maxRequestWorkers => d.maxRequestWorkers.isSome

/-- Sets a field; a value of the wrong kind leaves the draft as it is. -/
def set (d : Draft) : Field → String ⊕ UInt64 → Draft
  | .name, .inl s => { d with name := some s }
  | .idleTimeout, .inr n => { d with idleTimeout := some n }
  | .maxTimeout, .inr n => { d with maxTimeout := some n }
  | .maxRequestWorkers, .inr n => { d with maxRequestWorkers := some n }
  | _, _ => d

def fillFrom (d : Draft) (base : Settings) : Settings where
  name := d.name.getD base.name
  idleTimeoutMs := d.idleTimeout.getD base.idleTimeoutMs
  maxTimeoutMs := d.maxTimeout.getD base.maxTimeoutMs
  maxRequestWorkers := d.maxRequestWorkers.getD base.maxRequestWorkers

end Draft

end Coalesce.Settings
