import Collate.Key.Text

/-!
# Errors

The causes for which a request, a payload or a task is refused, and the message for each.  A
fault that none of the library's own operations finds has its text with it.
-/

namespace Collate

/-- What is wrong with a configuration. -/
inductive ConfigFault where
  /-- Some field groups at depth `deepest`, none at the lesser depth `missing`. -/
  | depthGap (deepest missing : Nat)
  /-- Two components of a request have one name. -/
  | declaredTwice (component : String)
  | other (text : String)
  deriving DecidableEq, Repr

/-- What is wrong with a row. -/
inductive DataFault where
  /-- The row has `found` slots in a table with `expected` fields. -/
  | slotCount (found expected : Nat)
  /-- The row belongs to a group deeper than the table groups. -/
  | tooDeep (key : Key)
  | other (text : String)
  deriving DecidableEq, Repr

/-- What stands in the way of a background task. -/
inductive StateFault where
  /-- There is nothing for the scheduler to run tasks on. -/
  | noRuntime
  /-- A task broke down. -/
  | taskPanicked
  /-- A sweep of the cache broke down. -/
  | sweepPanicked
  | other (text : String)
  deriving DecidableEq, Repr

/-- Why an operation was refused. -/
inductive Error where
  | invalidConfig (fault : ConfigFault)
  | invalidData (fault : DataFault)
  /-- Two accumulators of different kinds met in a field. -/
  | incompatible (field : Nat)
  /-- A lock was left behind by a thread that failed. -/
  | poisoned
  | invalidState (fault : StateFault)
  | unknownComponent (component : String)
  /-- There is no request from which the search of a query could be started. -/
  | missingRequest (query : String)
  /-- A search could not be started for the cache. -/
  | load (inner : Error)
  deriving DecidableEq, Repr

/-- A natural number in a message. -/
def shownNat (n : Nat) : String :=
  String.ofList (decimal n)

def ConfigFault.message : ConfigFault → String
  | .depthGap deepest missing =>
    "fields group at depth " ++ shownNat deepest ++ " but no field groups at depth "
      ++ shownNat missing
  | .declaredTwice component => "component " ++ component ++ " is declared twice"
  | .other text => text

def DataFault.message : DataFault → String
  | .slotCount found expected =>
    "row has " ++ shownNat found ++ " values but the table has " ++ shownNat expected
      ++ " fields"
  | .tooDeep key =>
    "row " ++ String.ofList key.shown ++ " is grouped deeper than the table's group depth"
  | .other text => text

def StateFault.message : StateFault → String
  | .noRuntime =>
    "No tokio runtime for scheduler: there is no reactor running, must be called from the "
      ++ "context of a Tokio 1.x runtime"
  | .taskPanicked => "Task join error: task panicked"
  | .sweepPanicked => "Eviction sweep panicked: task panicked"
  | .other text => text

/-- The message of an error. -/
def Error.message : Error → String
  | .invalidConfig fault => "Invalid configuration: " ++ fault.message
  | .invalidData fault => "Invalid data: " ++ fault.message
  | .incompatible field => "Incompatible generators for field " ++ shownNat field
  | .poisoned => "Mutex was poisoned"
  | .invalidState fault => "Invalid state: " ++ fault.message
  | .unknownComponent component => "Unknown component: " ++ component
  | .missingRequest query => "No search request available to create query " ++ query
  | .load inner => "Cache load failed: " ++ inner.message

end Collate
