import AllPairs.Task

/-!
Batches of tasks that are meant to run at the same time. Nothing stops a batch from holding
clashing tasks: whether every partition occurs at most once is a question that can be asked of it.
-/

namespace AllPairs

/-- Tasks that are to run together, in the order in which they were added. -/
structure Batch where
  tasks : List Task
deriving DecidableEq

namespace Batch

/-- The batch without tasks. -/
def empty : Batch := ⟨[]⟩

variable (batch : Batch)

/-- The batch with one more task at its end. -/
def push (task : Task) : Batch :=
  ⟨batch.tasks ++ [task]⟩

/-- The number of tasks. -/
def size : Nat :=
  batch.tasks.length

/-- The batch has no tasks. -/
def isEmpty : Bool :=
  batch.tasks.isEmpty

/-- Every partition that the batch reads, in task order, with repetitions. -/
def partitions : List Partition :=
  batch.tasks.flatMap Task.partitions

/-- The batch with every task in normalized form. -/
def normalized : Batch :=
  ⟨batch.tasks.map Task.normalized⟩

/-- No partition is read twice, neither by two tasks nor by one. -/
def Disjoint : Prop :=
  batch.partitions.Nodup

instance : Decidable batch.Disjoint :=
  inferInstanceAs (Decidable (List.Nodup _))

/-- The tasks, parted by blanks. -/
def text : String :=
  String.intercalate " " (batch.tasks.map Task.text)

/-- The structural text of a batch. -/
def dump : String :=
  Dump.record "Batch" [("tasks", Dump.list (batch.tasks.map Task.dump))]

@[simp]
theorem partitions_empty : empty.partitions = [] := rfl

@[simp]
theorem partitions_push (task : Task) :
    (batch.push task).partitions = batch.partitions ++ task.partitions := by
  simp [partitions, push]

@[simp]
theorem size_push (task : Task) : (batch.push task).size = batch.size + 1 := by
  simp [size, push]

end Batch
end AllPairs
