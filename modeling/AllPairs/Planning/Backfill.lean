import AllPairs.Batch
import AllPairs.Planning.Width

/-!
Filling up batches with diagonal tasks. The partitions whose diagonal task is not yet planned are
pending, in ascending order. A batch with room takes the lowest pending partition that it does not
use already, and at most one.
-/

namespace AllPairs

/-- The lowest pending partition that is not active, with the partitions that stay pending. -/
def backfill (active : List Partition) : List Partition → Option (Partition × List Partition)
  | [] => none
  | partition :: pending =>
    if partition ∈ active then
      (backfill active pending).map fun found => (found.1, partition :: found.2)
    else some (partition, pending)

/-- Adds a partition to an ascending list of pending partitions, unless it is there. -/
def enqueue (partition : Partition) : List Partition → List Partition
  | [] => [partition]
  | first :: pending =>
    if partition < first then partition :: first :: pending
    else if partition = first then first :: pending
    else first :: enqueue partition pending

namespace Batch

/-- The batch with a pending diagonal task added if there is room for one and one fits, and the
partitions that stay pending. -/
def backfilled (width : Width) (batch : Batch) (pending : List Partition) :
    Batch × List Partition :=
  if width.HasRoom batch.size then
    match backfill batch.partitions pending with
    | some (partition, left) => (batch.push (.diagonal partition), left)
    | none => (batch, pending)
  else (batch, pending)

/-- Fills up batches one after another. -/
def backfillEach (width : Width) : List Batch → List Partition → List Batch × List Partition
  | [], pending => ([], pending)
  | batch :: rest, pending =>
    let (filled, pending) := batch.backfilled width pending
    let (others, pending) := backfillEach width rest pending
    (filled :: others, pending)

/-- The batch of the cross tasks of some pairs. -/
def ofPairs (pairs : List (Partition × Partition)) : Batch :=
  ⟨pairs.map fun pair => .cross pair.1 pair.2⟩

end Batch

theorem backfill_eq_none_iff {active pending : List Partition} :
    backfill active pending = none ↔ ∀ p ∈ pending, p ∈ active := by
  induction pending with
  | nil => simp [backfill]
  | cons q pending ih => by_cases h : q ∈ active <;> simp [backfill, h, ih]

theorem Batch.backfillEach_cons (width : Width) (batch : Batch) (rest : List Batch)
    (pending : List Partition) :
    backfillEach width (batch :: rest) pending =
      let filled := batch.backfilled width pending
      let others := backfillEach width rest filled.2
      (filled.1 :: others.1, others.2) := rfl

end AllPairs
