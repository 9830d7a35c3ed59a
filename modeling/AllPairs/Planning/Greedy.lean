import AllPairs.IndexSet
import AllPairs.Planning.Backfill
import AllPairs.Planning.Event
import AllPairs.Schedule.Basic
import AllPairs.Workload

/-!
Greedy planning in single sweeps. A batch starts empty. One sweep over the pairs that wait admits
every pair whose partitions are still free while there is room, and defers the others to later
batches in unchanged order; the first pair that waits is always admitted, so every batch shortens
the queue. After the sweep one diagonal task is backfilled. Diagonal tasks that never fit become
batches of their own at the end.
-/

namespace AllPairs.Greedy

/-- What a sweep makes of a queue of pairs. -/
structure Sweep where
  admitted : List (Partition × Partition)
  deferred : List (Partition × Partition)
deriving DecidableEq

/-- Goes through a queue once, for a batch that uses the partitions `active` and holds `size`
tasks. -/
def sweep (width : Width) :
    (active : IndexSet) → (size : Nat) → List (Partition × Partition) → Sweep
  | _, _, [] => ⟨[], []⟩
  | active, size, (first, second) :: rest =>
    if width.HasRoom size ∧ first ∉ active ∧ second ∉ active then
      let swept := sweep width ((active.insert first).insert second) (size + 1) rest
      { swept with admitted := (first, second) :: swept.admitted }
    else
      let swept := sweep width active size rest
      { swept with deferred := (first, second) :: swept.deferred }

/-- Every pair of the queue is admitted or deferred. -/
theorem sweep_perm (width : Width) (active : IndexSet) (size : Nat)
    (queue : List (Partition × Partition)) :
    ((sweep width active size queue).admitted ++ (sweep width active size queue).deferred).Perm
      queue := by
  fun_induction sweep width active size queue with
  | case1 => exact .refl _
  | case2 _ _ first second rest _ swept ih => simpa using ih
  | case3 _ _ first second rest _ swept ih =>
    simpa using List.perm_middle.trans (.cons (first, second) ih)

theorem length_deferred_le (width : Width) (active : IndexSet) (size : Nat)
    (queue : List (Partition × Partition)) :
    (sweep width active size queue).deferred.length ≤ queue.length := by
  have := (sweep_perm width active size queue).length_eq
  simp at this
  omega

/-- A batch without tasks admits the first pair that waits. -/
theorem sweep_empty_cons (width : Width) (pair : Partition × Partition)
    (rest : List (Partition × Partition)) :
    sweep width .empty 0 (pair :: rest) =
      let swept := sweep width ((IndexSet.empty.insert pair.1).insert pair.2) 1 rest
      { swept with admitted := pair :: swept.admitted } := by
  simp [sweep, width.hasRoom_zero]

/-- A batch as it is closed, with what it leaves over. -/
structure Closing where
  batch : Batch
  deferred : List (Partition × Partition)
  diagonals : List Partition
deriving DecidableEq

/-- Fills a batch in one sweep over the queue and backfills it. -/
def closeBatch (width : Width) (queue : List (Partition × Partition))
    (diagonals : List Partition) : Closing :=
  let swept := sweep width .empty 0 queue
  let (batch, diagonals) := (Batch.ofPairs swept.admitted).backfilled width diagonals
  ⟨batch, swept.deferred, diagonals⟩

theorem length_deferred_closeBatch_lt (width : Width) (pair : Partition × Partition)
    (rest : List (Partition × Partition)) (diagonals : List Partition) :
    (closeBatch width (pair :: rest) diagonals).deferred.length < (pair :: rest).length := by
  simp only [closeBatch, sweep_empty_cons, List.length_cons]
  exact Nat.lt_succ_of_le (length_deferred_le ..)

/-- Closes batches until no pair waits; also gives the partitions whose diagonal tasks found no
place. -/
def closeBatches (width : Width) :
    (queue : List (Partition × Partition)) → (diagonals : List Partition) →
      List Batch × List Partition
  | [], diagonals => ([], diagonals)
  | pair :: rest, diagonals =>
    let closing := closeBatch width (pair :: rest) diagonals
    let (others, left) := closeBatches width closing.deferred closing.diagonals
    (closing.batch :: others, left)
termination_by queue => queue.length
decreasing_by exact length_deferred_closeBatch_lt ..

@[simp]
theorem closeBatches_nil (width : Width) (diagonals : List Partition) :
    closeBatches width [] diagonals = ([], diagonals) := by
  rw [closeBatches]

theorem closeBatches_cons (width : Width) (pair : Partition × Partition)
    (rest : List (Partition × Partition)) (diagonals : List Partition) :
    closeBatches width (pair :: rest) diagonals =
      let closing := closeBatch width (pair :: rest) diagonals
      let others := closeBatches width closing.deferred closing.diagonals
      (closing.batch :: others.1, others.2) := by
  rw [closeBatches]

/-- The batches that hold cross tasks, and the partitions whose diagonal tasks they left over. -/
def crossPhase (width : Width) (workload : Workload) : List Batch × List Partition :=
  closeBatches width workload.pairs (List.range workload.partitions)

/-- The schedule of a workload. -/
def plan (width : Width) (workload : Workload) : Schedule :=
  let (batches, diagonals) := crossPhase width workload
  ⟨workload.partitions, batches ++ diagonals.map fun partition => ⟨[.diagonal partition]⟩⟩

/-- What planning a workload tells: every batch of the cross phase as it is closed, and the end. -/
def events (width : Width) (workload : Workload) : List Event :=
  (crossPhase width workload).1.mapIdx
      (fun index batch => .closedBatch index batch.size batch.partitions.length)
    ++ [.planned "greedy" workload.partitions (plan width workload).size]

end AllPairs.Greedy
