import Coalesce.Json.Token
/-! # What can go wrong -/
namespace Coalesce

inductive CancelScope where
  | caller
  | engine
deriving DecidableEq, Inhabited

def CancelScope.name : CancelScope → String
  | .caller => "caller"
  | .engine => "engine"

structure ErrorContext where
  fieldPath : Option String := none
  details : Option String := none
  source : Option String := none
deriving DecidableEq

namespace ErrorContext

def parts (c : ErrorContext) : List String :=
  (c.fieldPath.map ("field: " ++ ·)).toList ++ (c.details.map ("details: " ++ ·)).toList
    ++ (c.source.map ("source: " ++ ·)).toList

def suffix (c : ErrorContext) : String :=
  if c.parts.isEmpty then "" else " (" ++ ", ".intercalate c.parts ++ ")"

end ErrorContext

/-- An error of the batcher. An execution error holds what the executor reported for a request:
a text of its own, or an error of this type. -/
inductive Error where
  | cancelled (scope : CancelScope)
  | execution (report : String)
  | executionOf (inner : Error)
  | resultCountMismatch (batcher : String) (expected actual : Nat)
  | executorPanicked (batcher message : String)
  | configuration (message : String) (context : ErrorContext)
  | runtime (message : String) (context : ErrorContext)
  | io (text : String)
  | yaml
  | json (fault : JsonFault)
deriving DecidableEq, Inhabited

namespace Error

def message : Error → String
  | .cancelled scope => "Request cancelled by " ++ scope.name ++ " scope"
  | .execution report => "Batch execution failed: " ++ report
  | .executionOf inner => "Batch execution failed: " ++ inner.message
  | .resultCountMismatch batcher expected actual =>
    "Batcher '" ++ batcher ++ "' executor returned " ++ Text.decimalText actual ++ " results for "
      ++ Text.decimalText expected ++ " requests"
  | .executorPanicked batcher message =>
    "Batcher '" ++ batcher ++ "' executor panicked: " ++ message
  | .configuration message context => "Configuration error: " ++ message ++ context.suffix
  | .runtime message context => "Runtime error: " ++ message ++ context.suffix
  | .io text => "I/O error: " ++ text
  | .yaml => "YAML error"
  | .json (.unfit message) => "JSON error: " ++ message
  | .json _ => "JSON error"

def causes : Error → List String
  | .execution report => [report]
  | .executionOf inner => inner.message :: inner.causes
  | .io text => [text]
  | .json (.unfit message) => [message]
  | _ => []

def isCancelled : Error → Bool
  | .cancelled _ => true
  | _ => false

def cancelScope? : Error → Option CancelScope
  | .cancelled scope => some scope
  | _ => none

def executionReport? : Error → Option String
  | .execution report => some report
  | .executionOf inner => some inner.message
  | _ => none

def context? : Error → Option ErrorContext
  | .configuration _ context => some context
  | .runtime _ context => some context
  | _ => none

end Error

end Coalesce
