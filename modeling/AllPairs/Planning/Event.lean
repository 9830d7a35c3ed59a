/-!
What planning and execution tell about their progress. An event has a severity and named fields,
the first of which is its message.
-/

namespace AllPairs

/-- How serious an event is. -/
inductive Severity where
  | debug
  | info
  | warn
deriving DecidableEq

/-- The word for a severity. -/
def Severity.text : Severity → String
  | debug => "DEBUG"
  | info => "INFO"
  | warn => "WARN"

/-- The value of a field of an event. -/
inductive EventValue where
  | number (value : Nat)
  | text (value : String)
deriving DecidableEq

/-- A step of planning or execution that is worth telling. -/
inductive Event where
  /-- A planner finished a batch with this number of tasks and of partitions in use. -/
  | closedBatch (batch tasks active : Nat)
  /-- A planner finished a schedule. -/
  | planned (method : String) (partitions batches : Nat)
  | poolStarted (workers : Nat)
  | batchCompleted (batch tasks : Nat)
  | taskFailed (batch : Nat) (task message : String)
  | executed (batches completed failed : Nat)
deriving DecidableEq

namespace Event

/-- The severity of an event. -/
def severity : Event → Severity
  | closedBatch .. | poolStarted .. | batchCompleted .. => .debug
  | planned .. | executed .. => .info
  | taskFailed .. => .warn

/-- The message of an event. -/
def message : Event → String
  | closedBatch .. => "closed batch"
  | planned method _ _ => "planned " ++ method ++ " schedule"
  | poolStarted .. => "worker pool started"
  | batchCompleted .. => "batch completed"
  | taskFailed .. => "task failed"
  | executed .. => "schedule executed"

/-- The fields of an event after its message. -/
def details : Event → List (String × EventValue)
  | closedBatch batch tasks active =>
    [("batch", .number batch), ("tasks", .number tasks), ("active", .number active)]
  | planned _ partitions batches =>
    [("partitions", .number partitions), ("batches", .number batches)]
  | poolStarted workers => [("workers", .number workers)]
  | batchCompleted batch tasks => [("batch", .number batch), ("tasks", .number tasks)]
  | taskFailed batch task message =>
    [("batch", .number batch), ("task", .text task), ("message", .text message)]
  | executed batches completed failed =>
    [("batches", .number batches), ("completed", .number completed), ("failed", .number failed)]

/-- All fields of an event, the message first. -/
def fields (event : Event) : List (String × EventValue) :=
  ("message", .text event.message) :: event.details

end Event
end AllPairs
