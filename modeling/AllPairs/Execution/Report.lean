import AllPairs.Execution.Comparison
import AllPairs.Planning.Event

/-!
What came out of performing batches: how many tasks completed, and which ones failed in which
batch.
-/

namespace AllPairs.Execution

/-- A task that did not succeed. -/
structure Failure where
  batch : Nat
  task : Task
  message : String
deriving DecidableEq

/-- The results of performing batches, summed up. -/
structure Report where
  batches : Nat
  completed : Nat
  failures : List Failure
deriving DecidableEq

namespace Failure

/-- The failures among the results of a batch. -/
def ofResults (batch : Nat) (results : List TaskResult) : List Failure :=
  results.filterMap fun result => result.fault.map fun message => ⟨batch, result.task, message⟩

/-- The line about a failure. -/
def text (failure : Failure) : String :=
  "batch " ++ toString failure.batch ++ ": " ++ failure.task.text ++ ": " ++ failure.message ++ "\n"

/-- Failures are ordered by batch, then by task, then by message. -/
def Precedes (f g : Failure) : Prop :=
  f.batch < g.batch ∨
    f.batch = g.batch ∧ (f.task < g.task ∨ f.task = g.task ∧ ¬ g.message < f.message)

instance (f g : Failure) : Decidable (Precedes f g) :=
  inferInstanceAs (Decidable (_ ∨ _ ∧ (_ ∨ _ ∧ ¬ _)))

end Failure

/-- The failures of batches in turn, the first of which has the given index. -/
def failuresFrom : Nat → List (List TaskResult) → List Failure
  | _, [] => []
  | index, results :: rest => Failure.ofResults index results ++ failuresFrom (index + 1) rest

/-- The tasks that succeeded among the results of a batch. -/
def completedTasks (results : List TaskResult) : List Task :=
  (results.filter fun result => result.fault.isNone).map TaskResult.task

/-- What performing batches tells, the first of which has the given index. -/
def eventsFrom : Nat → List (List TaskResult) → List Event
  | _, [] => []
  | index, results :: rest =>
    .batchCompleted index results.length ::
      (Failure.ofResults index results).map
        (fun failure => .taskFailed failure.batch failure.task.text failure.message)
      ++ eventsFrom (index + 1) rest

namespace Report

/-- Sums up the results of batches. -/
def ofOutcomes (outcomes : List (List TaskResult)) : Report where
  batches := outcomes.length
  completed := (outcomes.flatMap completedTasks).length
  failures := failuresFrom 0 outcomes

/-- Every task succeeded. -/
def isSuccess (report : Report) : Bool :=
  report.failures.isEmpty

/-- The failures in an order that does not depend on when they happened. -/
def sorted (report : Report) : Report :=
  { report with
    failures := report.failures.mergeSort fun f g => decide (f.Precedes g) }

/-- A line of counts, and a line for every failure. -/
def text (report : Report) : String :=
  toString report.batches ++ " batches, " ++ toString report.completed ++ " tasks completed, "
    ++ toString report.failures.length ++ " failed\n"
    ++ String.join (report.failures.map Failure.text)

/-- The event that ends an execution. -/
def event (report : Report) : Event :=
  .executed report.batches report.completed report.failures.length

end Report
end AllPairs.Execution
