import AllPairs.Planning.Backfill
import AllPairs.Proofs.ExactCover
import Mathlib.Algebra.BigOperators.Ring.List
import Mathlib.Algebra.Ring.Parity

/-!
# How many batches a workload needs

A cross task occupies two partitions and a diagonal task one, and a disjoint batch occupies each
partition once. Counted over all batches, an exact cover of `n` partitions occupies `n * n` of them in
batches of at most `n`, and it performs `n (n - 1) / 2` cross tasks in batches of at most `n / 2`.
Hence there are at least `n` batches, and at least `n - 1` of them hold cross tasks, or `n` if `n` is
odd. If no batch holds more than `w` tasks, there are also at least `n (n + 1) / 2` over `w` of them.
-/

namespace AllPairs

@[simp]
theorem Task.isDiagonal_normalized (task : Task) : task.normalized.isDiagonal = task.isDiagonal := by
  cases task with
  | diagonal => rfl
  | cross a b =>
    simp only [normalized, between]
    split <;> rfl

/-- The task compares the partition with another one. -/
def Task.joins (p : Partition) : Task → Bool
  | cross first second => first == p || second == p
  | diagonal _ => false

@[simp]
theorem Task.joins_normalized (p : Partition) (task : Task) :
    task.normalized.joins p = task.joins p := by
  cases task with
  | diagonal => rfl
  | cross a b =>
    simp only [normalized, between]
    split
    · rfl
    · exact Bool.or_comm ..

namespace Batch

/-- The number of cross tasks. -/
def crossCount (batch : Batch) : Nat :=
  batch.tasks.countP fun task => !task.isDiagonal

/-- The number of diagonal tasks. -/
def diagonalCount (batch : Batch) : Nat :=
  batch.tasks.countP Task.isDiagonal

/-- The number of cross tasks that compare a partition with another one. -/
def joinCount (p : Partition) (batch : Batch) : Nat :=
  batch.tasks.countP (Task.joins p)

/-- A cross task occupies two partitions and a diagonal task one. -/
theorem length_partitions (batch : Batch) :
    batch.partitions.length = 2 * batch.crossCount + batch.diagonalCount := by
  obtain ⟨tasks⟩ := batch
  simp only [partitions, crossCount, diagonalCount]
  induction tasks with
  | nil => rfl
  | cons task tasks ih =>
    rw [List.flatMap_cons, List.length_append, ih, List.countP_cons, List.countP_cons]
    cases task with
    | cross a b =>
      simp only [Task.partitions, Task.isDiagonal, List.length_cons, List.length_nil]
      simp
      omega
    | diagonal p =>
      simp only [Task.partitions, Task.isDiagonal, List.length_cons, List.length_nil]
      simp
      omega

@[simp]
theorem crossCount_ofPairs (pairs : List (Partition × Partition)) :
    (ofPairs pairs).crossCount = pairs.length := by
  simp [crossCount, ofPairs, List.countP_map, Function.comp_def, Task.isDiagonal]

@[simp]
theorem diagonalCount_ofPairs (pairs : List (Partition × Partition)) :
    (ofPairs pairs).diagonalCount = 0 := by
  simp [diagonalCount, ofPairs, List.countP_map, Function.comp_def, Task.isDiagonal]

@[simp]
theorem crossCount_push_diagonal (batch : Batch) (p : Partition) :
    (batch.push (.diagonal p)).crossCount = batch.crossCount := by
  simp [crossCount, push, Task.isDiagonal]

@[simp]
theorem diagonalCount_push_diagonal (batch : Batch) (p : Partition) :
    (batch.push (.diagonal p)).diagonalCount = batch.diagonalCount + 1 := by
  simp [diagonalCount, push, Task.isDiagonal]

@[simp]
theorem joinCount_push_diagonal (batch : Batch) (p q : Partition) :
    (batch.push (.diagonal q)).joinCount p = batch.joinCount p := by
  simp [joinCount, push, Task.joins]

theorem joinCount_ofPairs_pos {pairs : List (Partition × Partition)} {p : Partition} :
    0 < (ofPairs pairs).joinCount p ↔ p ∈ (ofPairs pairs).partitions := by
  rw [joinCount, List.countP_pos_iff, partitions, List.mem_flatMap]
  refine exists_congr fun task => and_congr_right fun mem => ?_
  obtain ⟨pair, -, rfl⟩ := List.mem_map.mp mem
  simp only [Task.joins, Task.partitions, Bool.or_eq_true, beq_iff_eq, List.mem_pair]
  exact or_congr eq_comm eq_comm

end Batch

namespace Schedule

/-- The number of batches that hold a cross task. -/
def crossBatchCount (schedule : Schedule) : Nat :=
  schedule.batches.countP fun batch => 0 < batch.crossCount

end Schedule

/-- What batches contribute to a total comes from those that contribute at all, no more from each than
the bound. -/
theorem sum_map_le_mul_countP {weight : Batch → Nat} {batches : List Batch} {bound : Nat}
    (each : ∀ batch ∈ batches, weight batch ≤ bound) :
    (batches.map weight).sum ≤ bound * batches.countP fun batch => 0 < weight batch := by
  induction batches with
  | nil => simp
  | cons batch batches ih =>
    obtain ⟨first, others⟩ := List.forall_mem_cons.mp each
    have rest := ih others
    rw [List.map_cons, List.sum_cons, List.countP_cons, Nat.mul_add]
    by_cases some : 0 < weight batch
    · simp only [some, decide_true, if_true]
      omega
    · simp only [some, decide_false, Bool.false_eq_true, if_false]
      omega

/-- Batches that contribute at least the bound contribute it as often as there are such batches. -/
theorem mul_countP_le_sum_map {weight : Batch → Nat} {heavy : Batch → Prop} [DecidablePred heavy]
    {batches : List Batch} {bound : Nat} (each : ∀ batch ∈ batches, heavy batch → bound ≤ weight batch) :
    (bound * batches.countP fun batch => heavy batch) ≤ (batches.map weight).sum := by
  induction batches with
  | nil => simp
  | cons batch batches ih =>
    obtain ⟨first, others⟩ := List.forall_mem_cons.mp each
    have rest := ih others
    rw [List.map_cons, List.sum_cons, List.countP_cons, Nat.mul_add]
    by_cases chosen : heavy batch
    · have := first chosen
      simp only [chosen, decide_true, if_true]
      omega
    · simp only [chosen, decide_false, Bool.false_eq_true, if_false]
      omega

theorem countP_pos_le_sum_map (weight : Batch → Nat) (batches : List Batch) :
    (batches.countP fun batch => 0 < weight batch) ≤ (batches.map weight).sum := by
  have bound := @mul_countP_le_sum_map weight (fun batch => 0 < weight batch) _ batches 1
    fun _ _ some => some
  rwa [Nat.one_mul] at bound

/-- Batches of three kinds are no more than there are of each kind together. -/
theorem length_le_countP_add {first second third : Batch → Prop} [DecidablePred first]
    [DecidablePred second] [DecidablePred third] {batches : List Batch}
    (each : ∀ batch ∈ batches, first batch ∨ second batch ∨ third batch) :
    batches.length ≤ (batches.countP fun batch => first batch) +
      (batches.countP fun batch => second batch) + batches.countP fun batch => third batch := by
  induction batches with
  | nil => simp
  | cons batch batches ih =>
    obtain ⟨kind, others⟩ := List.forall_mem_cons.mp each
    have rest := ih others
    simp only [List.length_cons, List.countP_cons, decide_eq_true_eq]
    rcases kind with kind | kind | kind
    · rw [if_pos kind]
      omega
    · rw [if_pos kind]
      omega
    · rw [if_pos kind]
      omega

/-- A partition is joined with no more than all others. -/
theorem Workload.countP_joins_lt {n : Nat} {p : Partition} (below : p < n) :
    (pairsBelow n).countP (fun pair => pair.1 == p || pair.2 == p) < n := by
  let joined := (pairsBelow n).filter fun pair => pair.1 == p || pair.2 == p
  let partner := fun pair : Partition × Partition => if pair.1 = p then pair.2 else pair.1
  have unique : (p :: joined.map partner).Nodup := by
    rw [List.nodup_cons]
    constructor
    · intro mem
      obtain ⟨⟨a, b⟩, hpair, same⟩ := List.mem_map.mp mem
      simp only [joined, List.mem_filter, mem_pairsBelow, Bool.or_eq_true, beq_iff_eq, partner]
        at hpair same
      split at same <;> lia
    · refine List.Nodup.map_on ?_ ((nodup_pairsBelow n).filter _)
      rintro ⟨a, b⟩ hpair ⟨c, d⟩ hother same
      simp only [joined, List.mem_filter, mem_pairsBelow, Bool.or_eq_true, beq_iff_eq, partner]
        at hpair hother same
      rw [Prod.mk.injEq]
      split at same <;> split at same <;> lia
  have inside : p :: joined.map partner ⊆ List.range n := by
    refine List.cons_subset.mpr ⟨List.mem_range.mpr below, ?_⟩
    intro q hq
    obtain ⟨⟨a, b⟩, hpair, rfl⟩ := List.mem_map.mp hq
    simp only [joined, List.mem_filter, mem_pairsBelow] at hpair
    rw [List.mem_range]
    simp only [partner]
    split <;> lia
  have bound := unique.length_le_of_subset inside
  rw [List.length_cons, List.length_map, List.length_range] at bound
  rwa [List.countP_eq_length_filter]

namespace ExactCover

variable {workload : Workload} {schedule : Schedule}

/-- A property that does not depend on how cross tasks are written holds of as many tasks of the
schedule as of the workload. -/
theorem countP_tasks (cover : ExactCover workload schedule) (property : Task → Bool)
    (stable : ∀ task : Task, property task.normalized = property task) :
    (schedule.batches.map fun batch => batch.tasks.countP property).sum =
      workload.tasks.countP property := by
  have written : property ∘ Task.normalized = property := funext stable
  rw [← cover.perm.countP_eq, List.countP_map, written, Schedule.tasks, List.countP_flatMap]
  rfl

theorem sum_crossCount (cover : ExactCover workload schedule) :
    2 * (schedule.batches.map Batch.crossCount).sum =
      workload.partitions * (workload.partitions - 1) := by
  have total := cover.countP_tasks (fun task => !task.isDiagonal) (by simp)
  have crosses : workload.tasks.countP (fun task => !task.isDiagonal) = workload.pairs.length := by
    simp [Workload.tasks, Workload.cross, Workload.diagonal, Function.comp_def, Task.isDiagonal]
  rw [crosses, Workload.length_pairs] at total
  calc 2 * (schedule.batches.map Batch.crossCount).sum
      = 2 * (workload.partitions * (workload.partitions - 1) / 2) := congrArg (2 * ·) total
    _ = workload.partitions * (workload.partitions - 1) :=
      Nat.mul_div_cancel' (Nat.even_mul_pred_self _).two_dvd

theorem sum_diagonalCount (cover : ExactCover workload schedule) :
    (schedule.batches.map Batch.diagonalCount).sum = workload.partitions := by
  have total := cover.countP_tasks Task.isDiagonal (by simp)
  have diagonals : workload.tasks.countP Task.isDiagonal = workload.partitions := by
    simp [Workload.tasks, Workload.cross, Workload.diagonal, Function.comp_def, Task.isDiagonal]
  exact total.trans diagonals

/-- Fewer batches join a partition with another one than there are partitions. -/
theorem countP_joinCount_lt (cover : ExactCover workload schedule) {p : Partition}
    (below : p < workload.partitions) :
    (schedule.batches.countP fun batch => 0 < batch.joinCount p) < workload.partitions := by
  have total := cover.countP_tasks (Task.joins p) (Task.joins_normalized p)
  have joined : workload.tasks.countP (Task.joins p) =
      workload.pairs.countP fun pair => pair.1 == p || pair.2 == p := by
    simp [Workload.tasks, Workload.cross, Workload.diagonal, Function.comp_def, Task.joins]
  rw [joined] at total
  calc (schedule.batches.countP fun batch => 0 < batch.joinCount p)
      ≤ (schedule.batches.map (Batch.joinCount p)).sum := countP_pos_le_sum_map _ _
    _ = workload.pairs.countP fun pair => pair.1 == p || pair.2 == p := total
    _ < workload.partitions := Workload.countP_joins_lt below

/-- The tasks of a batch occupy no more partitions than there are. -/
theorem occupied_le (cover : ExactCover workload schedule) {batch : Batch}
    (hb : batch ∈ schedule.batches) :
    2 * batch.crossCount + batch.diagonalCount ≤ workload.partitions := by
  rw [← batch.length_partitions]
  exact (cover.disjoint batch hb).length_partitions_le fun _ ht _ hp =>
    workload.lt_of_contains (cover.contains (List.mem_flatMap.mpr ⟨batch, hb, ht⟩)) hp

/-- No exact cover has fewer batches than partitions. -/
theorem partitions_le_size (cover : ExactCover workload schedule) :
    workload.partitions ≤ schedule.size := by
  have pos := workload.pos
  have total : (schedule.batches.map fun batch => 2 * batch.crossCount + batch.diagonalCount).sum =
      workload.partitions * workload.partitions := by
    rw [List.sum_map_add, List.sum_map_mul_left]
    calc _ = workload.partitions * (workload.partitions - 1) + workload.partitions :=
          congrArg₂ (· + ·) cover.sum_crossCount cover.sum_diagonalCount
      _ = workload.partitions * (workload.partitions - 1 + 1) := (Nat.mul_succ _ _).symm
      _ = workload.partitions * workload.partitions := by rw [Nat.sub_add_cancel pos]
  have bound := sum_map_le_mul_countP fun _ => cover.occupied_le
  rw [total] at bound
  exact (Nat.le_of_mul_le_mul_left bound pos).trans List.countP_le_length

theorem sum_size (cover : ExactCover workload schedule) :
    (schedule.batches.map Batch.size).sum = workload.size := by
  rw [← cover.taskCount_eq, Schedule.taskCount, Schedule.tasks, List.length_flatMap]
  rfl

/-- No exact cover has more batches than tasks. -/
theorem size_le_size (cover : ExactCover workload schedule) : schedule.size ≤ workload.size := by
  have all : schedule.batches.countP (fun batch => 0 < batch.size) = schedule.size := by
    refine List.countP_eq_length.mpr fun batch hb => ?_
    exact decide_eq_true (List.length_pos_iff.mpr (cover.nonempty batch hb))
  calc schedule.size ≤ (schedule.batches.map Batch.size).sum :=
        all ▸ countP_pos_le_sum_map Batch.size schedule.batches
    _ = workload.size := cover.sum_size

/-- Batches that are no larger than a bound need to be as many as hold all tasks. -/
theorem size_le_mul_size (cover : ExactCover workload schedule) {bound : Nat}
    (narrow : schedule.maxWidth ≤ bound) : workload.size ≤ bound * schedule.size := by
  have each := Schedule.maxWidth_le_iff.mp narrow
  calc workload.size = (schedule.batches.map Batch.size).sum := cover.sum_size.symm
    _ ≤ bound * schedule.batches.countP fun batch => 0 < batch.size := sum_map_le_mul_countP each
    _ ≤ bound * schedule.size := Nat.mul_le_mul_left bound List.countP_le_length

/-- The cross tasks need `n - 1` batches, or `n` if `n` is odd. -/
theorem rounds_le_crossBatchCount (cover : ExactCover workload schedule)
    (several : 2 ≤ workload.partitions) :
    workload.partitions - 1 + workload.partitions % 2 ≤ schedule.crossBatchCount := by
  have each : ∀ batch ∈ schedule.batches, batch.crossCount ≤ workload.partitions / 2 := by
    intro batch hb
    have := cover.occupied_le hb
    omega
  have bound : (schedule.batches.map Batch.crossCount).sum ≤
      workload.partitions / 2 * schedule.crossBatchCount := sum_map_le_mul_countP each
  have total := cover.sum_crossCount
  -- Half of `n` times `n - 1`, or `n` if `n` is odd, is the number of cross tasks.
  have halves : workload.partitions * (workload.partitions - 1) =
      2 * (workload.partitions / 2 * (workload.partitions - 1 + workload.partitions % 2)) := by
    rcases Nat.even_or_odd' workload.partitions with ⟨m, even | odd⟩
    · rw [even, Nat.mul_mod_right, Nat.mul_div_cancel_left m (by decide), Nat.add_zero, Nat.mul_assoc]
    · have half : (2 * m + 1) / 2 = m := by omega
      have rest : (2 * m + 1) % 2 = 1 := by omega
      rw [odd, half, rest, Nat.add_sub_cancel]
      ring
  rw [halves] at total
  refine Nat.le_of_mul_le_mul_left (?_ : workload.partitions / 2 * _ ≤ _) (by omega)
  omega

end ExactCover
end AllPairs
