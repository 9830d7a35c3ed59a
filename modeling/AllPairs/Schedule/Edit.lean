import AllPairs.Schedule.Basic

/-!
Single edits of a schedule: moving, adding and taking away batches and tasks. A position that does
not exist leaves the schedule as it is.
-/

namespace AllPairs

/-- One change to a schedule. -/
inductive Edit where
  /-- States another number of partitions. -/
  | resize (partitions : Nat)
  | insertBatch (index : Nat) (tasks : List Task)
  | removeBatch (index : Nat)
  | swapBatches (first second : Nat)
  /-- Takes a batch away and appends its tasks to the batch that then is at `target`. -/
  | mergeBatch (index target : Nat)
  | insertTask (batch index : Nat) (task : Task)
  | removeTask (batch index : Nat)
  /-- Exchanges the indices of a cross task. -/
  | flipTask (batch index : Nat)
deriving DecidableEq

/-- Exchanges the items at two positions. -/
def Edit.swapAt {α : Type} (items : List α) (first second : Nat) : List α :=
  match items[first]?, items[second]? with
  | some a, some b => (items.set first b).set second a
  | _, _ => items

/-- The tasks of a batch changed by a function on lists. -/
def Batch.mapTasks (change : List Task → List Task) (batch : Batch) : Batch :=
  ⟨change batch.tasks⟩

namespace Schedule

/-- The schedule with its batches changed by a function on lists. -/
def mapBatches (change : List Batch → List Batch) (schedule : Schedule) : Schedule :=
  { schedule with batches := change schedule.batches }

/-- The schedule after an edit. -/
def edit (schedule : Schedule) : Edit → Schedule
  | .resize partitions => { schedule with partitions }
  | .insertBatch index tasks => schedule.mapBatches fun batches => batches.insertIdx index ⟨tasks⟩
  | .removeBatch index => schedule.mapBatches fun batches => batches.eraseIdx index
  | .swapBatches first second => schedule.mapBatches fun batches =>
    Edit.swapAt batches first second
  | .mergeBatch index target => schedule.mapBatches fun batches =>
    match batches[index]? with
    | some moved => (batches.eraseIdx index).modify target (.mapTasks (· ++ moved.tasks))
    | none => batches
  | .insertTask batch index task => schedule.mapBatches fun batches =>
    batches.modify batch (.mapTasks fun tasks => tasks.insertIdx index task)
  | .removeTask batch index => schedule.mapBatches fun batches =>
    batches.modify batch (.mapTasks fun tasks => tasks.eraseIdx index)
  | .flipTask batch index => schedule.mapBatches fun batches =>
    batches.modify batch (.mapTasks fun tasks => tasks.modify index Task.flipped)

end Schedule
end AllPairs
