import AllPairs.IndexSet
import AllPairs.Schedule.Basic
import AllPairs.Workload

/-!
Whether a schedule covers a workload exactly once with disjoint batches. Batches are scanned in
order and tasks by position, in normalized form. At a task its place in the workload is judged
first, then whether its partitions are still free in the batch, then whether it was scheduled
before. Tasks that no batch contains are looked for last, in enumeration order.
-/

namespace AllPairs

/-- A way in which a schedule fails to cover a workload. -/
inductive Violation where
  | emptyBatch (batch : Nat)
  /-- A partition of a task already is in use by an earlier task of the batch. -/
  | overlap (batch : Nat) (partition : Partition)
  | duplicate (task : Task)
  | foreign (batch : Nat) (task : Task)
  | missing (task : Task)
deriving DecidableEq

/-- What is wrong with the schedule. -/
def Violation.message : Violation → String
  | emptyBatch batch => "batch " ++ toString batch ++ " is empty"
  | overlap batch partition =>
    "batch " ++ toString batch ++ " uses partition " ++ toString partition ++
      " in more than one task"
  | duplicate task => "task " ++ task.text ++ " is scheduled more than once"
  | foreign batch task =>
    "task " ++ task.text ++ " in batch " ++ toString batch ++ " is not part of the universe"
  | missing task => "task " ++ task.text ++ " is never scheduled"

namespace Schedule

variable (workload : Workload)

/-- Scans the tasks of one batch. `active` holds the partitions in use in this batch and
`scheduled` the places of the tasks seen so far in the schedule; the answer is `scheduled` with the
places of the tasks of the batch added. -/
def scanTasks (index : Nat) :
    (active scheduled : IndexSet) → List Task → Except Violation IndexSet
  | _, scheduled, [] => .ok scheduled
  | active, scheduled, written :: rest =>
    let task := written.normalized
    if workload.Contains task then
      match task.partitions.find? (· ∈ active) with
      | some partition => .error (.overlap index partition)
      | none =>
        if workload.cell task ∈ scheduled then .error (.duplicate task)
        else
          scanTasks index (active.insertEach task.partitions)
            (scheduled.insert (workload.cell task)) rest
    else .error (.foreign index task)

/-- Scans batches, the first of which has the given index. -/
def scanBatches :
    (index : Nat) → (scheduled : IndexSet) → List Batch → Except Violation IndexSet
  | _, scheduled, [] => .ok scheduled
  | index, scheduled, batch :: rest =>
    if batch.isEmpty then .error (.emptyBatch index)
    else do
      let scheduled ← scanTasks workload index .empty scheduled batch.tasks
      scanBatches (index + 1) scheduled rest

/-- Succeeds if the schedule covers the workload exactly once and every batch is disjoint, and
names the first violation otherwise. The number of partitions that the schedule was planned for is
not compared. -/
def validate (schedule : Schedule) : Except Violation Unit := do
  let scheduled ← scanBatches workload 0 .empty schedule.batches
  match workload.tasks.find? (workload.cell · ∉ scheduled) with
  | some task => .error (.missing task)
  | none => .ok ()

end Schedule
end AllPairs
