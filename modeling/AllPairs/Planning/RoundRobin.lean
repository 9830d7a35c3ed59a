import AllPairs.Planning.Backfill
import AllPairs.Planning.CircleMethod
import AllPairs.Planning.Event
import AllPairs.Schedule.Basic
import AllPairs.Workload

/-!
Planning by a round robin tournament. Every round of the circle method is cut into batches that
fit the width, and a batch with room takes a diagonal task, which for an odd number of partitions
is the one with the bye. The diagonal tasks that remain never clash and share batches at the end.
-/

namespace AllPairs.RoundRobin

/-- The cross tasks of every round, cut into batches. -/
def crossBatches (width : Width) (workload : Workload) : List Batch :=
  ((CircleMethod.rounds workload.partitions).flatMap width.chunks).map Batch.ofPairs

/-- The schedule of a workload. -/
def plan (width : Width) (workload : Workload) : Schedule :=
  let (batches, diagonals) :=
    Batch.backfillEach width (crossBatches width workload) (List.range workload.partitions)
  ⟨workload.partitions, batches ++ (width.chunks (diagonals.map Task.diagonal)).map Batch.mk⟩

/-- What planning a workload tells: only its end. -/
def events (width : Width) (workload : Workload) : List Event :=
  [.planned "round robin" workload.partitions (plan width workload).size]

end AllPairs.RoundRobin
