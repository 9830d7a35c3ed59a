import AllPairs.Proofs.Counting
import AllPairs.Proofs.Planning.Tournament

/-!
# The round robin schedule in closed form

Without a binding width every round of the tournament is one batch. For an even number of partitions a
round leaves no partition free, so the diagonal tasks come last, all in one batch. For an odd number
the only free partition of a round is the one with the bye, which is the lowest whose diagonal task is
still pending, so every round takes one. Either way no schedule needs fewer batches.
-/

namespace AllPairs

namespace Width

variable {α : Type} {width : Width}

theorem Allows.mono {bound size : Nat} (wide : width.Allows bound) (le : size ≤ bound) :
    width.Allows size :=
  fun limit given => Nat.le_trans le (wide limit given)

/-- A list that fits the width is its only chunk. -/
theorem chunks_eq_singleton {items : List α} (some : items ≠ []) (fits : width.Allows items.length) :
    width.chunks items = [items] := by
  obtain ⟨item, rest, rfl⟩ := List.exists_cons_of_ne_nil some
  cases width with
  | unbounded => rfl
  | atMost limit pos =>
    have short : (item :: rest).length ≤ limit := fits limit rfl
    rw [chunks, pieces, List.take_of_length_le short, List.drop_of_length_le short, pieces]
    exact some

theorem flatMap_chunks {lists : List (List α)} (some : ∀ items ∈ lists, items ≠ [])
    (fits : ∀ items ∈ lists, width.Allows items.length) : lists.flatMap width.chunks = lists := by
  have single : ∀ items ∈ lists, width.chunks items = [items] := fun items mem =>
    chunks_eq_singleton (some items mem) (fits items mem)
  rw [List.flatMap_congr single, List.flatMap_singleton']

end Width

namespace Batch

variable {width : Width}

/-- Batches that use every pending partition are not filled up. -/
theorem backfillEach_of_used {batches : List Batch} {pending : List Partition}
    (used : ∀ batch ∈ batches, ∀ p ∈ pending, p ∈ batch.partitions) :
    backfillEach width batches pending = (batches, pending) := by
  induction batches with
  | nil => rfl
  | cons batch batches ih =>
    obtain ⟨first, others⟩ := List.forall_mem_cons.mp used
    have none : backfill batch.partitions pending = none := backfill_eq_none_iff.mpr first
    have same : batch.backfilled width pending = (batch, pending) := by
      unfold backfilled
      split
      · rw [none]
      · rfl
    simp only [backfillEach, same, ih others]

/-- Batches with room that leave out the pending partitions one after another take them one after
another. -/
theorem backfillEach_of_free {batchOf : Partition → Batch} {pending : List Partition}
    (room : ∀ p ∈ pending, width.HasRoom (batchOf p).size)
    (free : ∀ p ∈ pending, p ∉ (batchOf p).partitions) :
    backfillEach width (pending.map batchOf) pending =
      (pending.map fun p => (batchOf p).push (.diagonal p), []) := by
  induction pending with
  | nil => rfl
  | cons p pending ih =>
    obtain ⟨roomFirst, roomOthers⟩ := List.forall_mem_cons.mp room
    obtain ⟨freeFirst, freeOthers⟩ := List.forall_mem_cons.mp free
    have taken : (batchOf p).backfilled width (p :: pending) =
        ((batchOf p).push (.diagonal p), pending) := by
      simp only [backfilled, roomFirst, if_true, backfill, freeFirst, if_false]
    simp only [List.map_cons, backfillEach, taken, ih roomOthers freeOthers]

end Batch

namespace RoundRobin

variable {width : Width} {workload : Workload}

/-! ## The rounds as batches -/

theorem rounds_even (even : workload.partitions % 2 = 0) :
    CircleMethod.rounds workload.partitions =
      (List.range (workload.partitions - 1)).map fun number =>
        CircleMethod.round workload.partitions number workload.partitions := by
  have pos := workload.pos
  rw [CircleMethod.rounds, if_neg (by omega), even]
  rfl

theorem rounds_odd (odd : workload.partitions % 2 = 1) (several : 2 ≤ workload.partitions) :
    CircleMethod.rounds workload.partitions =
      (List.range workload.partitions).map fun number =>
        CircleMethod.round (workload.partitions + 1) number workload.partitions := by
  rw [CircleMethod.rounds, if_neg (by omega), odd]
  rfl

/-- For an even number of partitions a round has no free partition. -/
theorem matched_even (even : workload.partitions % 2 = 0) {number : Nat}
    (mem : number ∈ List.range (workload.partitions - 1)) :
    (Batch.ofPairs (CircleMethod.round workload.partitions number
      workload.partitions)).partitions.Perm (List.range workload.partitions) := by
  have pos := workload.pos
  exact CircleMethod.partitions_round_perm even (by omega) (List.mem_range.mp mem) (Nat.le_refl _)

/-- For an odd number of partitions the partition with the bye is the only free one of a round. -/
theorem matched_odd (odd : workload.partitions % 2 = 1) {number : Nat}
    (mem : number ∈ List.range workload.partitions) :
    (number :: (Batch.ofPairs (CircleMethod.round (workload.partitions + 1) number
      workload.partitions)).partitions).Perm (List.range workload.partitions) :=
  @CircleMethod.partitions_round_bye (workload.partitions + 1) number (by omega) (by omega)
    (List.mem_range.mp mem)

theorem length_round_odd (odd : workload.partitions % 2 = 1) {number : Nat}
    (mem : number ∈ List.range workload.partitions) :
    (CircleMethod.round (workload.partitions + 1) number workload.partitions).length =
      (workload.partitions - 1) / 2 := by
  have count := (matched_odd odd mem).length_eq
  rw [List.length_cons, Batch.length_partitions_ofPairs, List.length_range] at count
  omega

/-- A round has half as many pairs as there are partitions, rounded down. -/
theorem length_of_mem_rounds {pairs : List (Partition × Partition)}
    (mem : pairs ∈ CircleMethod.rounds workload.partitions) :
    pairs.length = workload.partitions / 2 := by
  have several : 2 ≤ workload.partitions := by
    by_contra few
    rw [CircleMethod.rounds, if_pos (by omega)] at mem
    cases mem
  rcases Nat.mod_two_eq_zero_or_one workload.partitions with even | odd
  · rw [rounds_even even] at mem
    obtain ⟨number, hn, rfl⟩ := List.mem_map.mp mem
    have count := (matched_even even hn).length_eq
    rw [Batch.length_partitions_ofPairs, List.length_range] at count
    omega
  · rw [rounds_odd odd several] at mem
    obtain ⟨number, hn, rfl⟩ := List.mem_map.mp mem
    rw [length_round_odd odd hn]
    omega

/-- Rounds that fit the width are the batches of the tournament. -/
theorem crossBatches_eq (wide : width.Allows (workload.partitions / 2)) :
    crossBatches width workload = (CircleMethod.rounds workload.partitions).map Batch.ofPairs := by
  have some : ∀ pairs ∈ CircleMethod.rounds workload.partitions, pairs ≠ [] := by
    rintro pairs mem rfl
    have few : workload.partitions ≤ 1 := by
      have : 0 = workload.partitions / 2 := length_of_mem_rounds mem
      omega
    rw [CircleMethod.rounds, if_pos few] at mem
    cases mem
  have fits : ∀ pairs ∈ CircleMethod.rounds workload.partitions, width.Allows pairs.length := by
    intro pairs mem
    rwa [length_of_mem_rounds mem]
  rw [crossBatches, Width.flatMap_chunks some fits]

/-! ## The batches -/

/-- For an even number of partitions rounds that fit the width take no diagonal task. -/
theorem backfillEach_even (even : workload.partitions % 2 = 0)
    (wide : width.Allows (workload.partitions / 2)) :
    Batch.backfillEach width (crossBatches width workload) (List.range workload.partitions) =
      ((List.range (workload.partitions - 1)).map (fun number =>
        Batch.ofPairs (CircleMethod.round workload.partitions number workload.partitions)),
        List.range workload.partitions) := by
  have crosses : crossBatches width workload =
      (List.range (workload.partitions - 1)).map fun number =>
        Batch.ofPairs (CircleMethod.round workload.partitions number workload.partitions) := by
    rw [crossBatches_eq wide, rounds_even even, List.map_map]
    rfl
  rw [crosses]
  refine Batch.backfillEach_of_used ?_
  rw [List.forall_mem_map]
  intro number mem p hp
  exact (matched_even even mem).mem_iff.mpr hp

/-- The batches of an even number of partitions: the rounds, and one batch with every diagonal task. -/
theorem batches_even (even : workload.partitions % 2 = 0) (wide : width.Allows workload.partitions) :
    (plan width workload).batches =
      (List.range (workload.partitions - 1)).map (fun number =>
        Batch.ofPairs (CircleMethod.round workload.partitions number workload.partitions)) ++
      [⟨(List.range workload.partitions).map Task.diagonal⟩] := by
  have last : width.chunks ((List.range workload.partitions).map Task.diagonal) =
      [(List.range workload.partitions).map Task.diagonal] := by
    refine Width.chunks_eq_singleton ?_ (by simpa using wide)
    rw [Ne, List.map_eq_nil_iff, List.range_eq_nil]
    exact Nat.ne_of_gt workload.pos
  rw [plan, backfillEach_even even (wide.mono (Nat.div_le_self _ _))]
  simp only [last, List.map_cons, List.map_nil]

/-- The batches of an odd number of partitions: the rounds, each with the diagonal task of the bye. -/
theorem batches_odd (odd : workload.partitions % 2 = 1)
    (wide : width.Allows ((workload.partitions + 1) / 2)) :
    (plan width workload).batches =
      (List.range workload.partitions).map fun number =>
        (Batch.ofPairs (CircleMethod.round (workload.partitions + 1) number workload.partitions)).push
          (.diagonal number) := by
  by_cases single : workload.partitions = 1
  · -- No pairs at all: the only batch is that of the diagonal task.
    have last : width.chunks [Task.diagonal 0] = [[Task.diagonal 0]] :=
      Width.chunks_eq_singleton (List.cons_ne_nil _ _) width.allows_one
    simp [plan, crossBatches, single, CircleMethod.rounds, Batch.backfillEach, last,
      CircleMethod.round, CircleMethod.meetings, Batch.push, Batch.ofPairs]
  have crosses : crossBatches width workload =
      (List.range workload.partitions).map fun number =>
        Batch.ofPairs (CircleMethod.round (workload.partitions + 1) number workload.partitions) := by
    rw [crossBatches_eq (wide.mono (by omega)), rounds_odd odd (by omega), List.map_map]
    rfl
  have room : ∀ number ∈ List.range workload.partitions, width.HasRoom
      (Batch.ofPairs (CircleMethod.round (workload.partitions + 1) number
        workload.partitions)).size := by
    intro number mem
    rw [Batch.size_ofPairs, length_round_odd odd mem]
    exact wide.mono (by omega)
  have free : ∀ number ∈ List.range workload.partitions, number ∉
      (Batch.ofPairs (CircleMethod.round (workload.partitions + 1) number
        workload.partitions)).partitions :=
    fun number mem => (List.nodup_cons.mp ((matched_odd odd mem).nodup_iff.mpr List.nodup_range)).1
  simp only [plan, crosses, Batch.backfillEach_of_free room free, List.map_nil, Width.chunks,
    List.append_nil]

/-! ## How many batches there are -/

/-- For an even number of partitions every batch but the last is a round without a diagonal task. -/
theorem rounds_before_diagonals (even : workload.partitions % 2 = 0)
    (wide : width.Allows workload.partitions) :
    (plan width workload).size = workload.partitions ∧
    (plan width workload).crossBatchCount = workload.partitions - 1 ∧
    (∀ batch ∈ (plan width workload).batches.take (workload.partitions - 1),
      batch.crossCount = workload.partitions / 2 ∧ batch.diagonalCount = 0) ∧
    (plan width workload).batches.drop (workload.partitions - 1) =
      [⟨(List.range workload.partitions).map Task.diagonal⟩] := by
  have pos := workload.pos
  have counts : ∀ batch ∈ (List.range (workload.partitions - 1)).map (fun number =>
        Batch.ofPairs (CircleMethod.round workload.partitions number workload.partitions)),
      batch.crossCount = workload.partitions / 2 ∧ batch.diagonalCount = 0 := by
    rw [List.forall_mem_map]
    intro number mem
    rw [Batch.crossCount_ofPairs, Batch.diagonalCount_ofPairs]
    exact ⟨length_of_mem_rounds (rounds_even even ▸ List.mem_map_of_mem mem), rfl⟩
  have last : (Batch.mk ((List.range workload.partitions).map Task.diagonal)).crossCount = 0 := by
    simp [Batch.crossCount, Task.isDiagonal]
  refine ⟨?_, ?_, ?_, ?_⟩
  · rw [Schedule.size, batches_even even wide]
    simp only [List.length_append, List.length_map, List.length_range, List.length_singleton]
    omega
  · have all : ∀ batch ∈ (List.range (workload.partitions - 1)).map (fun number =>
        Batch.ofPairs (CircleMethod.round workload.partitions number workload.partitions)),
        decide (0 < batch.crossCount) = true := by
      intro batch mem
      have := (counts batch mem).1
      exact decide_eq_true (by omega)
    rw [Schedule.crossBatchCount, batches_even even wide, List.countP_append,
      List.countP_eq_length.mpr all, List.length_map, List.length_range]
    simp [last]
  · rw [batches_even even wide, List.take_left' (by simp)]
    exact counts
  · rw [batches_even even wide, List.drop_left' (by simp)]

/-- For an odd number of partitions every batch is a round with one diagonal task. -/
theorem rounds_with_diagonals (odd : workload.partitions % 2 = 1)
    (wide : width.Allows ((workload.partitions + 1) / 2)) :
    (plan width workload).size = workload.partitions ∧
    (2 ≤ workload.partitions → (plan width workload).crossBatchCount = workload.partitions) ∧
    ∀ batch ∈ (plan width workload).batches,
      batch.crossCount = (workload.partitions - 1) / 2 ∧ batch.diagonalCount = 1 := by
  have counts : ∀ batch ∈ (plan width workload).batches,
      batch.crossCount = (workload.partitions - 1) / 2 ∧ batch.diagonalCount = 1 := by
    rw [batches_odd odd wide, List.forall_mem_map]
    intro number mem
    rw [Batch.crossCount_push_diagonal, Batch.crossCount_ofPairs, Batch.diagonalCount_push_diagonal,
      Batch.diagonalCount_ofPairs]
    exact ⟨length_round_odd odd mem, rfl⟩
  have size : (plan width workload).size = workload.partitions := by
    rw [Schedule.size, batches_odd odd wide, List.length_map, List.length_range]
  refine ⟨size, fun several => ?_, counts⟩
  have all : ∀ batch ∈ (plan width workload).batches, decide (0 < batch.crossCount) = true := by
    intro batch mem
    have := (counts batch mem).1
    exact decide_eq_true (by omega)
  rw [Schedule.crossBatchCount, List.countP_eq_length.mpr all]
  exact size

/-! ## Main result -/

/-- Round robin needs the fewest batches. Every schedule that the validator accepts has at least as many
batches as there are partitions, and at least one less, or as many for an odd number, hold cross tasks.
With a width of at least the number of partitions both are attained. For an even number every batch but
the last is half as large and has no diagonal task, and the last one has all of them; for an odd number
every batch has one diagonal task, and all other partitions are paired. -/
theorem roundRobin_optimal (wide : width.Allows workload.partitions) :
    (∀ schedule : Schedule, schedule.validate workload = .ok () →
      workload.partitions ≤ schedule.size ∧
      (2 ≤ workload.partitions →
        (workload.partitions % 2 = 0 → workload.partitions - 1 ≤ schedule.crossBatchCount) ∧
        (workload.partitions % 2 = 1 → workload.partitions ≤ schedule.crossBatchCount))) ∧
    (plan width workload).size = workload.partitions ∧
    (2 ≤ workload.partitions →
      (workload.partitions % 2 = 0 →
        (plan width workload).crossBatchCount = workload.partitions - 1) ∧
      (workload.partitions % 2 = 1 → (plan width workload).crossBatchCount = workload.partitions)) ∧
    (workload.partitions % 2 = 0 →
      (∀ batch ∈ (plan width workload).batches.take (workload.partitions - 1),
        batch.crossCount = workload.partitions / 2 ∧ batch.diagonalCount = 0) ∧
      (plan width workload).batches.drop (workload.partitions - 1) =
        [⟨(List.range workload.partitions).map Task.diagonal⟩]) ∧
    (workload.partitions % 2 = 1 →
      ∀ batch ∈ (plan width workload).batches,
        batch.crossCount = (workload.partitions - 1) / 2 ∧ batch.diagonalCount = 1) := by
  have half : width.Allows ((workload.partitions + 1) / 2) := by
    have pos := workload.pos
    exact wide.mono (by omega)
  refine ⟨?_, ?_, ?_, ?_, ?_⟩
  · intro schedule accepted
    have cover := Schedule.validate_eq_ok_iff.mp accepted
    refine ⟨cover.partitions_le_size, fun several => ?_⟩
    have bound := cover.rounds_le_crossBatchCount several
    exact ⟨fun _ => by omega, fun _ => by omega⟩
  · rcases Nat.mod_two_eq_zero_or_one workload.partitions with even | odd
    · exact (rounds_before_diagonals even wide).1
    · exact (rounds_with_diagonals odd half).1
  · intro several
    exact ⟨fun even => (rounds_before_diagonals even wide).2.1,
      fun odd => (rounds_with_diagonals odd half).2.1 several⟩
  · exact fun even => (rounds_before_diagonals even wide).2.2
  · exact fun odd => (rounds_with_diagonals odd half).2.2

/-- Three partitions need three batches, as any accepted schedule of them has, and the plan in batches of
at most three tasks has no more; two partitions have one batch with a pair, and their diagonal tasks
share the other. -/
theorem two_and_three_partitions_optimal :
    Schedule.validate ⟨3, by decide⟩ ⟨3, [⟨[.cross 0 1, .diagonal 2]⟩,
      ⟨[.cross 0 2, .diagonal 1]⟩, ⟨[.cross 1 2, .diagonal 0]⟩]⟩ = .ok () ∧
    3 ≤ Schedule.crossBatchCount ⟨3, [⟨[.cross 0 1, .diagonal 2]⟩,
      ⟨[.cross 0 2, .diagonal 1]⟩, ⟨[.cross 1 2, .diagonal 0]⟩]⟩ ∧
    (Width.atMost 3 (by decide)).Allows 3 ∧
    (plan (.atMost 3 (by decide)) ⟨3, by decide⟩).size = 3 ∧
    (plan (.atMost 3 (by decide)) ⟨3, by decide⟩).crossBatchCount = 3 ∧
    (∀ batch ∈ (plan (.atMost 3 (by decide)) ⟨3, by decide⟩).batches,
      batch.crossCount = 1 ∧ batch.diagonalCount = 1) ∧
    (plan .unbounded ⟨2, by decide⟩).crossBatchCount = 1 ∧
    (plan .unbounded ⟨2, by decide⟩).batches.drop 1 = [⟨[.diagonal 0, .diagonal 1]⟩] := by
  have wide : (Width.atMost 3 (by decide)).Allows 3 := by simp [Width.Allows, Width.limit?]
  have unbounded : Width.unbounded.Allows 2 := by simp [Width.Allows, Width.limit?]
  have accepted : Schedule.validate ⟨3, by decide⟩ ⟨3, [⟨[.cross 0 1, .diagonal 2]⟩,
      ⟨[.cross 0 2, .diagonal 1]⟩, ⟨[.cross 1 2, .diagonal 0]⟩]⟩ = .ok () := by decide
  obtain ⟨fewest, size, crossing, -, odd⟩ :=
    @roundRobin_optimal (.atMost 3 (by decide)) ⟨3, by decide⟩ wide
  obtain ⟨-, -, crossingTwo, even, -⟩ := @roundRobin_optimal .unbounded ⟨2, by decide⟩ unbounded
  exact ⟨accepted, ((fewest _ accepted).2 (by decide)).2 rfl, wide, size,
    (crossing (by decide)).2 rfl, odd rfl, (crossingTwo (by decide)).1 rfl, (even rfl).2⟩

end RoundRobin
end AllPairs
