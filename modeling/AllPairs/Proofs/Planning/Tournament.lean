import AllPairs.Planning.Algorithm
import AllPairs.Proofs.Planning.OneFactorization

/-!
# The round robin planner

The rounds of a tournament are disjoint and enumerate every pair once. Cutting a round into chunks
that fit the width keeps both, and so does backfilling the chunks one after another. What remains
of the diagonal tasks never clashes, so its chunks are feasible batches too.
-/

namespace AllPairs

namespace Width

variable {α : Type}

theorem mem_pieces {length : Nat} {pos : 0 < length} {items piece : List α}
    (mem : piece ∈ pieces length pos items) :
    piece ≠ [] ∧ piece.Sublist items ∧ piece.length ≤ length := by
  fun_induction pieces length pos items with
  | case1 => simp at mem
  | case2 item rest ih =>
    rcases List.mem_cons.mp mem with rfl | later
    · refine ⟨?_, List.take_sublist .., List.length_take_le ..⟩
      rw [Ne, List.take_eq_nil_iff, not_or]
      exact ⟨Nat.ne_of_gt pos, List.cons_ne_nil item rest⟩
    · obtain ⟨nonempty, sub, short⟩ := ih later
      exact ⟨nonempty, sub.trans (List.drop_sublist ..), short⟩

/-- A chunk is a part of the list that is not empty and fits the width. -/
theorem mem_chunks {width : Width} {items chunk : List α} (mem : chunk ∈ width.chunks items) :
    chunk ≠ [] ∧ chunk.Sublist items ∧ width.Allows chunk.length := by
  cases items with
  | nil => simp [chunks] at mem
  | cons item rest =>
    cases width with
    | unbounded =>
      obtain rfl := List.mem_singleton.mp mem
      exact ⟨List.cons_ne_nil _ _, .refl _, allows_unbounded _⟩
    | atMost limit pos =>
      obtain ⟨nonempty, sub, short⟩ := mem_pieces mem
      exact ⟨nonempty, sub, allows_atMost.mpr short⟩

end Width

namespace RoundRobin

variable (width : Width) (workload : Workload)

theorem feasible_crossBatches :
    ∀ batch ∈ crossBatches width workload, batch.Feasible width := by
  intro batch mem
  obtain ⟨chunk, hchunk, rfl⟩ := List.mem_map.mp mem
  obtain ⟨pairs, hpairs, hchunk⟩ := List.mem_flatMap.mp hchunk
  obtain ⟨nonempty, sub, allowed⟩ := Width.mem_chunks hchunk
  have disjoint : (Batch.ofPairs pairs).Disjoint := by
    unfold CircleMethod.rounds at hpairs
    split at hpairs
    · cases hpairs
    · obtain ⟨number, inside, rfl⟩ := List.mem_map.mp hpairs
      exact CircleMethod.disjoint_round (by omega) (by omega) (List.mem_range.mp inside) _
  exact {
    nonempty := by simpa using nonempty
    disjoint := disjoint.sublist (sub.map _)
    allowed := by rwa [Batch.size_ofPairs] }

/-- Cutting the rounds into chunks keeps every cross task. -/
theorem crossBatches_perm : ((crossBatches width workload).flatMap Batch.tasks).Perm workload.cross := by
  have flat : (crossBatches width workload).flatMap Batch.tasks =
      (CircleMethod.rounds workload.partitions).flatten.map fun pair => .cross pair.1 pair.2 := by
    unfold crossBatches
    induction CircleMethod.rounds workload.partitions with
    | nil => rfl
    | cons pairs rounds ih =>
      have chunks : ((width.chunks pairs).map Batch.ofPairs).flatMap Batch.tasks =
          pairs.map fun pair => .cross pair.1 pair.2 := by
        rw [List.flatMap_map]
        conv_rhs => rw [← Width.flatten_chunks width pairs, List.map_flatten]
        rfl
      rw [List.flatMap_cons, List.map_append, List.flatMap_append, ih, chunks, List.flatten_cons,
        List.map_append]
  rw [flat]
  exact (CircleMethod.flatten_rounds_perm workload.partitions).map _

theorem feasible_diagonals {diagonals : List Partition} (unique : diagonals.Nodup) :
    ∀ batch ∈ (width.chunks (diagonals.map Task.diagonal)).map Batch.mk, batch.Feasible width := by
  intro batch mem
  obtain ⟨chunk, hchunk, rfl⟩ := List.mem_map.mp mem
  obtain ⟨nonempty, sub, allowed⟩ := Width.mem_chunks hchunk
  have all : (Batch.mk (diagonals.map Task.diagonal)).Disjoint := by
    simpa [Batch.Disjoint, Batch.partitions, List.flatMap_map, Task.partitions] using unique
  exact ⟨nonempty, all.sublist sub, allowed⟩

theorem feasible_plan : ∀ batch ∈ (plan width workload).batches, batch.Feasible width := by
  have unique := List.nodup_range.sublist
    (Batch.backfillEach_sublist width (crossBatches width workload) (List.range workload.partitions))
  rw [plan, List.forall_mem_append]
  exact ⟨Batch.feasible_backfillEach _ (feasible_crossBatches width workload),
    feasible_diagonals width unique⟩

/-- Cutting up the diagonal tasks that remain keeps all of them. -/
theorem tasks_plan :
    (plan width workload).tasks =
      let (batches, diagonals) :=
        Batch.backfillEach width (crossBatches width workload) (List.range workload.partitions)
      batches.flatMap Batch.tasks ++ diagonals.map Task.diagonal := by
  rw [Schedule.tasks, plan, List.flatMap_append, List.flatMap_map]
  exact congrArg _ (List.flatMap_id.trans (width.flatten_chunks _))

theorem plan_fulfils : Fulfils width workload (plan width workload) := by
  refine fulfils_of_feasible (feasible_plan width workload) ?_ rfl
  rw [tasks_plan]
  exact (Batch.backfillEach_perm width _ _).trans ((crossBatches_perm width workload).append_right _)

/-- The round robin planner fulfils what it owes for every number of partitions and every width, and
planning never fails. -/
theorem roundRobin_fulfils :
    Fulfils width workload (plan width workload) ∧
    (Algorithm.roundRobin.planner ⟨width⟩).schedule workload.partitions () =
      .ok (plan width workload, ()) := by
  have fulfils : Fulfils width workload (plan width workload) := plan_fulfils width workload
  exact ⟨fulfils, Planner.schedule_pure fulfils.accepted⟩

end RoundRobin
end AllPairs
