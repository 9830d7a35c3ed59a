import AllPairs.Proofs.Planning.NimSchedule
import AllPairs.Proofs.Planning.TournamentSchedule

/-!
# How wide plans are

A batch of pairs of `n` partitions with a diagonal task among them holds half of `n` tasks, rounded up,
and one of diagonal tasks alone holds `n` of them. Greedy planning keeps to the first, and so does a
tournament of an odd number; one of an even number leaves all diagonal tasks over, which share a batch. A
width that is less than that is met by some batch, since nothing but the width ends it.
-/

namespace AllPairs

namespace Width

/-- The size that a batch can have within the width, if it could have the given size without it. -/
def cap : Width → Nat → Nat
  | unbounded, size => size
  | atMost limit _, size => min limit size

variable {width : Width} {size bound : Nat}

theorem le_cap_iff : size ≤ width.cap bound ↔ width.Allows size ∧ size ≤ bound := by
  cases width with
  | unbounded => simp [cap, allows_unbounded]
  | atMost limit pos => rw [cap, allows_atMost, Nat.le_min]

theorem cap_of_allows (wide : width.Allows bound) : width.cap bound = bound :=
  Nat.le_antisymm (le_cap_iff.mp (Nat.le_refl _)).2 (le_cap_iff.mpr ⟨wide, Nat.le_refl _⟩)

/-- A width that does not allow a size has a smaller limit. -/
theorem exists_limit_of_not_allows (narrow : ¬ width.Allows bound) :
    ∃ limit pos, width = .atMost limit pos ∧ limit < bound := by
  cases width with
  | unbounded => exact absurd (allows_unbounded bound) narrow
  | atMost limit pos => exact ⟨limit, pos, rfl, Nat.lt_of_not_le (mt allows_atMost.mpr narrow)⟩

theorem cap_of_lt {limit : Nat} {pos : 0 < limit} (narrow : limit < bound) :
    (atMost limit pos).cap bound = limit :=
  Nat.min_eq_left (Nat.le_of_lt narrow)

end Width

/-- The size of a batch is the maximal width if no batch is larger. -/
theorem Schedule.maxWidth_eq {schedule : Schedule} {batch : Batch} (mem : batch ∈ schedule.batches)
    (largest : ∀ other ∈ schedule.batches, other.size ≤ batch.size) :
    schedule.maxWidth = batch.size :=
  Nat.le_antisymm (maxWidth_le_iff.mpr largest) (maxWidth_le_iff.mp (Nat.le_refl _) batch mem)

theorem Batch.size_eq_add (batch : Batch) : batch.size = batch.crossCount + batch.diagonalCount := by
  rw [size, batch.tasks.length_eq_countP_add_countP Task.isDiagonal, Nat.add_comm]
  congr 1
  exact List.countP_congr fun task _ => by simp

theorem Batch.backfilled_of_full {width : Width} {batch : Batch} (full : ¬ width.HasRoom batch.size)
    (pending : List Partition) : batch.backfilled width pending = (batch, pending) :=
  if_neg full

/-- A plan that keeps to its width is as wide as the cap of a size if some batch is that large and
otherwise none would be larger than the size. -/
theorem Fulfils.maxWidth_eq {width : Width} {workload : Workload} {schedule : Schedule}
    (fulfils : Fulfils width workload schedule) {batch : Batch} {size : Nat}
    (mem : batch ∈ schedule.batches) (attained : batch.size = width.cap size)
    (bound : width.Allows size → ∀ other ∈ schedule.batches, other.size ≤ size) :
    schedule.maxWidth = width.cap size := by
  rw [← attained]
  refine Schedule.maxWidth_eq mem fun other hother => ?_
  have allowed := fulfils.allowed other hother
  rw [attained, Width.le_cap_iff]
  refine ⟨allowed, ?_⟩
  by_cases wide : width.Allows size
  · exact bound wide other hother
  · obtain ⟨limit, pos, rfl, narrow⟩ := Width.exists_limit_of_not_allows wide
    exact Nat.le_trans (allowed limit rfl) (Nat.le_of_lt narrow)

namespace Greedy

open Workload

variable {width : Width} {workload : Workload}

/-! ## The first batch without a binding width -/

/-- The partner of a partition in a pair with sum 1 is the other one of its couple. -/
theorem lt_and_xor_one_lt_iff {n p : Nat} : (p < n ∧ p ^^^ 1 < n) ↔ p < 2 * (n / 2) := by
  have parity := @Nat.xor_mod_two_eq p 1
  have couple : (p ^^^ 1) / 2 = p / 2 := by
    rw [Nat.xor_div_two]
    exact Nat.xor_zero _
  omega

theorem length_pairsWithSum_one (n : Nat) : (pairsWithSum n 1).length = n / 2 := by
  have disjoint : (Batch.ofPairs (pairsWithSum n 1)).Disjoint := by
    have swept := @disjoint_admitted .unbounded .empty 0 (waiting n 1) ?_
    · rw [sweep_waiting Nat.one_pos] at swept
      exact swept.1
    · rintro ⟨i, j⟩ mem
      exact Nat.ne_of_lt (mem_waiting.mp mem).1.1
  have matched : (Batch.ofPairs (pairsWithSum n 1)).partitions.Perm (List.range (2 * (n / 2))) := by
    rw [List.perm_ext_iff_of_nodup disjoint List.nodup_range]
    intro p
    rw [mem_partitions_pairsWithSum Nat.one_pos, List.mem_range, lt_and_xor_one_lt_iff]
  have count := matched.length_eq
  rw [Batch.length_partitions_ofPairs, List.length_range] at count
  omega

theorem crossCount_nimBatch (n sum : Nat) :
    (nimBatch n sum).crossCount = (pairsWithSum n sum).length := by
  unfold nimBatch
  split
  · rw [Batch.crossCount_push_diagonal, Batch.crossCount_ofPairs]
  · rw [Batch.crossCount_ofPairs]

theorem diagonalCount_nimBatch (n sum : Nat) :
    (nimBatch n sum).diagonalCount = if sum ^^^ n < n then 1 else 0 := by
  unfold nimBatch
  split
  · rw [Batch.diagonalCount_push_diagonal, Batch.diagonalCount_ofPairs]
  · rw [Batch.diagonalCount_ofPairs]

/-- The first batch pairs every partition with its neighbour, and takes the diagonal task of the one that
is left alone. -/
theorem size_nimBatch_one (n : Nat) : (nimBatch n 1).size = (n + 1) / 2 := by
  have parity := @Nat.xor_mod_two_eq 1 n
  have couple : (1 ^^^ n) / 2 = n / 2 := by
    rw [Nat.xor_div_two]
    exact Nat.zero_xor _
  rw [Batch.size_eq_add, crossCount_nimBatch, diagonalCount_nimBatch, length_pairsWithSum_one]
  split <;> omega

theorem size_le_of_mem_unbounded {batch : Batch}
    (mem : batch ∈ (plan .unbounded workload).batches) :
    batch.size ≤ (workload.partitions + 1) / 2 := by
  have occupied := (plan_fulfils .unbounded workload).cover.occupied_le mem
  rw [batches_unbounded] at mem
  obtain ⟨sum, -, rfl⟩ := List.mem_map.mp mem
  have few : (nimBatch workload.partitions sum).diagonalCount ≤ 1 := by
    rw [diagonalCount_nimBatch]
    split <;> omega
  rw [Batch.size_eq_add]
  omega

theorem exists_batches_unbounded (workload : Workload) :
    ∃ rest, (plan .unbounded workload).batches = nimBatch workload.partitions 1 :: rest := by
  have large := Nat.le_pow_clog (b := 2) (by decide) (workload.partitions + 1)
  obtain ⟨more, count⟩ : ∃ more, 2 ^ Nat.clog 2 (workload.partitions + 1) - 1 = more + 1 :=
    Nat.exists_eq_succ_of_ne_zero (by have := workload.pos; omega)
  rw [batches_unbounded, count, List.range'_succ, List.map_cons]
  exact ⟨_, rfl⟩

/-! ## The first batch of a narrow plan -/

/-- Within a width a sweep admits the first pairs that it admits without, as many as there is room for. -/
theorem admitted_eq_take (limit : Nat) (pos : 0 < limit) (active : IndexSet) (size : Nat)
    (queue : List (Partition × Partition)) :
    (sweep (.atMost limit pos) active size queue).admitted =
      (sweep .unbounded active size queue).admitted.take (limit - size) := by
  fun_induction sweep (.atMost limit pos) active size queue with
  | case1 => simp [sweep]
  | case2 active size first second rest free swept ih =>
    have room : limit - size = limit - (size + 1) + 1 := by
      have := Width.hasRoom_atMost.mp free.1
      omega
    simp only [sweep, Width.hasRoom_unbounded, free.2.1, free.2.2, not_false_eq_true, and_self,
      if_true, room, List.take_succ_cons, swept, ih]
  | case3 active size first second rest busy swept ih =>
    by_cases room : (Width.atMost limit pos).HasRoom size
    · have clash : ¬ (first ∉ active ∧ second ∉ active) := fun free => busy ⟨room, free⟩
      simp only [sweep, Width.hasRoom_unbounded, true_and, clash, if_false, swept, ih]
    · -- Nothing more is taken, whatever would be free.
      have none : limit - size = 0 := by
        rw [Width.hasRoom_atMost] at room
        omega
      simp only [none, List.take_zero, swept, ih]

/-- A batch that pairs can fill is filled by them. -/
theorem size_closeBatch_of_narrow {limit n : Nat} {pos : 0 < limit} (narrow : limit ≤ n / 2)
    (diagonals : List Partition) :
    (closeBatch (.atMost limit pos) (waiting n 1) diagonals).batch.size = limit := by
  have count : (sweep (.atMost limit pos) .empty 0 (waiting n 1)).admitted.length = limit := by
    rw [admitted_eq_take, sweep_waiting Nat.one_pos, List.length_take, length_pairsWithSum_one]
    omega
  have full : ¬ (Width.atMost limit pos).HasRoom
      (Batch.ofPairs (sweep (.atMost limit pos) .empty 0 (waiting n 1)).admitted).size := by
    rw [Batch.size_ofPairs, count, Width.hasRoom_atMost]
    exact Nat.lt_irrefl limit
  rw [closeBatch, Batch.backfilled_of_full full]
  rw [Batch.size_ofPairs, count]

theorem exists_batches_of_narrow {limit : Nat} {pos : 0 < limit}
    (narrow : limit ≤ workload.partitions / 2) :
    ∃ first rest, (plan (.atMost limit pos) workload).batches = first :: rest ∧
      first.size = limit := by
  have busy : workload.pairs ≠ [] := by
    rw [pairs_eq_waiting, Ne, waiting_eq_nil_iff Nat.one_pos, Nat.not_le]
    have large := Nat.le_pow_clog (b := 2) (by decide) workload.partitions
    omega
  obtain ⟨pair, queue, split⟩ := List.exists_cons_of_ne_nil busy
  have closed := @size_closeBatch_of_narrow limit _ pos narrow (List.range workload.partitions)
  rw [← pairs_eq_waiting, split] at closed
  rw [plan, crossPhase, split, closeBatches_cons]
  exact ⟨_, _, rfl, closed⟩

/-! ## The maximal width -/

/-- The first batch of a greedy plan holds half of the partitions, rounded up, if the width allows. -/
theorem exists_first_batch (width : Width) (workload : Workload) :
    ∃ first rest, (plan width workload).batches = first :: rest ∧
      first.size = width.cap ((workload.partitions + 1) / 2) := by
  by_cases wide : width.Allows ((workload.partitions + 1) / 2)
  · obtain ⟨rest, batches⟩ := exists_batches_unbounded workload
    refine ⟨_, rest, (plan_eq_unbounded wide).symm ▸ batches, ?_⟩
    rw [size_nimBatch_one, Width.cap_of_allows wide]
  · obtain ⟨limit, pos, rfl, narrow⟩ := Width.exists_limit_of_not_allows wide
    rw [Width.cap_of_lt narrow]
    exact exists_batches_of_narrow (by omega)

theorem maxWidth_plan (width : Width) (workload : Workload) :
    (plan width workload).maxWidth = width.cap ((workload.partitions + 1) / 2) := by
  obtain ⟨first, rest, batches, size⟩ := exists_first_batch width workload
  have mem : first ∈ (plan width workload).batches := by
    rw [batches]
    exact List.mem_cons_self
  refine (plan_fulfils width workload).maxWidth_eq mem size fun wide other hother => ?_
  rw [plan_eq_unbounded wide] at hother
  exact size_le_of_mem_unbounded hother

end Greedy

namespace RoundRobin

variable {width : Width} {workload : Workload}

/-! ## Batches that the width ends -/

theorem rounds_ne_nil (several : 2 ≤ workload.partitions) :
    CircleMethod.rounds workload.partitions ≠ [] := by
  rw [CircleMethod.rounds, if_neg (by omega), Ne, List.map_eq_nil_iff, List.range_eq_nil]
  omega

/-- The first chunk of a list that is not too short is full. -/
theorem exists_chunks_cons {α : Type} {limit : Nat} {pos : 0 < limit} {items : List α}
    (long : limit ≤ items.length) :
    ∃ rest, (Width.atMost limit pos).chunks items = items.take limit :: rest := by
  cases items with
  | nil =>
    rw [List.length_nil] at long
    omega
  | cons item items =>
    rw [Width.chunks, Width.pieces]
    · exact ⟨_, rfl⟩
    · exact List.cons_ne_nil _ _

/-- A round that is no shorter than the width is cut into chunks, the first of which is full. -/
theorem exists_batch_of_narrow {limit : Nat} {pos : 0 < limit}
    (narrow : limit ≤ workload.partitions / 2) :
    ∃ batch ∈ (plan (.atMost limit pos) workload).batches, batch.size = limit := by
  obtain ⟨pairs, others, split⟩ := List.exists_cons_of_ne_nil (@rounds_ne_nil workload (by omega))
  have length : pairs.length = workload.partitions / 2 :=
    length_of_mem_rounds (split ▸ List.mem_cons_self)
  obtain ⟨more, cut⟩ := @exists_chunks_cons _ limit pos pairs (by omega)
  have size : (Batch.ofPairs (pairs.take limit)).size = limit := by
    rw [Batch.size_ofPairs, List.length_take]
    omega
  have full : ¬ (Width.atMost limit pos).HasRoom (Batch.ofPairs (pairs.take limit)).size := by
    rw [size, Width.hasRoom_atMost]
    exact Nat.lt_irrefl limit
  refine ⟨Batch.ofPairs (pairs.take limit), ?_, size⟩
  rw [plan, crossBatches, split, List.flatMap_cons, cut, List.cons_append, List.map_cons,
    Batch.backfillEach_cons, Batch.backfilled_of_full full]
  exact List.mem_cons_self

/-- A width that no round fills is filled by the diagonal tasks of an even number of partitions. -/
theorem exists_batch_of_even (even : workload.partitions % 2 = 0) {limit : Nat} {pos : 0 < limit}
    (wide : workload.partitions / 2 ≤ limit) (narrow : limit ≤ workload.partitions) :
    ∃ batch ∈ (plan (.atMost limit pos) workload).batches, batch.size = limit := by
  obtain ⟨more, cut⟩ := @exists_chunks_cons _ limit pos
    ((List.range workload.partitions).map Task.diagonal) (by simpa using narrow)
  refine ⟨⟨((List.range workload.partitions).map Task.diagonal).take limit⟩, ?_, ?_⟩
  · rw [plan, backfillEach_even even (Width.allows_atMost.mpr wide)]
    simp only [cut, List.map_cons]
    exact List.mem_append_right _ List.mem_cons_self
  · simpa [Batch.size] using narrow

/-! ## The maximal width -/

theorem exists_widest_even (even : workload.partitions % 2 = 0) :
    ∃ batch ∈ (plan width workload).batches, batch.size = width.cap workload.partitions := by
  by_cases wide : width.Allows workload.partitions
  · rw [batches_even even wide, Width.cap_of_allows wide]
    exact ⟨⟨(List.range workload.partitions).map Task.diagonal⟩, by simp, by simp [Batch.size]⟩
  · obtain ⟨limit, pos, rfl, narrow⟩ := Width.exists_limit_of_not_allows wide
    rw [Width.cap_of_lt narrow]
    rcases Nat.le_total limit (workload.partitions / 2) with short | long
    · exact exists_batch_of_narrow short
    · exact exists_batch_of_even even long (Nat.le_of_lt narrow)

theorem maxWidth_plan_even (even : workload.partitions % 2 = 0) :
    (plan width workload).maxWidth = width.cap workload.partitions := by
  obtain ⟨batch, mem, size⟩ := @exists_widest_even width workload even
  have fulfils := plan_fulfils width workload
  exact fulfils.maxWidth_eq mem size fun _ _ => fulfils.cover.size_le

/-- Every round of an odd number of partitions is as large as any disjoint batch can be that has no more
than one diagonal task. -/
theorem size_of_mem_odd (odd : workload.partitions % 2 = 1)
    (wide : width.Allows ((workload.partitions + 1) / 2)) {batch : Batch}
    (mem : batch ∈ (plan width workload).batches) : batch.size = (workload.partitions + 1) / 2 := by
  obtain ⟨cross, diagonal⟩ := (rounds_with_diagonals odd wide).2.2 batch mem
  rw [Batch.size_eq_add]
  omega

theorem exists_widest_odd (odd : workload.partitions % 2 = 1) :
    ∃ batch ∈ (plan width workload).batches,
      batch.size = width.cap ((workload.partitions + 1) / 2) := by
  by_cases wide : width.Allows ((workload.partitions + 1) / 2)
  · have some : (plan width workload).batches ≠ [] := by
      rw [batches_odd odd wide, Ne, List.map_eq_nil_iff, List.range_eq_nil]
      exact Nat.ne_of_gt workload.pos
    obtain ⟨batch, mem⟩ := List.exists_mem_of_ne_nil _ some
    exact ⟨batch, mem, (size_of_mem_odd odd wide mem).trans (Width.cap_of_allows wide).symm⟩
  · obtain ⟨limit, pos, rfl, narrow⟩ := Width.exists_limit_of_not_allows wide
    rw [Width.cap_of_lt narrow]
    exact exists_batch_of_narrow (by omega)

theorem maxWidth_plan_odd (odd : workload.partitions % 2 = 1) :
    (plan width workload).maxWidth = width.cap ((workload.partitions + 1) / 2) := by
  obtain ⟨batch, mem, size⟩ := @exists_widest_odd width workload odd
  refine (plan_fulfils width workload).maxWidth_eq mem size fun wide other hother => ?_
  exact Nat.le_of_eq (size_of_mem_odd odd wide hother)

/-! ## Widths that never bind -/

theorem plan_eq_of_batches_eq {other : Width}
    (same : (plan width workload).batches = (plan other workload).batches) :
    plan width workload = plan other workload :=
  congrArg (Schedule.mk workload.partitions) same

theorem plan_eq_unbounded_even (even : workload.partitions % 2 = 0)
    (wide : width.Allows workload.partitions) : plan width workload = plan .unbounded workload := by
  refine plan_eq_of_batches_eq ?_
  rw [batches_even even wide, batches_even even (Width.allows_unbounded _)]

theorem plan_eq_unbounded_odd (odd : workload.partitions % 2 = 1)
    (wide : width.Allows ((workload.partitions + 1) / 2)) :
    plan width workload = plan .unbounded workload := by
  refine plan_eq_of_batches_eq ?_
  rw [batches_odd odd wide, batches_odd odd (Width.allows_unbounded _)]

end RoundRobin

/-- The width of a plan is met exactly until it does not matter any more. The largest batch of a greedy
plan is its first one, and holds half as many tasks as there are partitions, rounded up, or as many as the
width allows. So does that of a round robin plan for an odd number of partitions, and for an even number
it holds as many tasks as there are partitions, or as the width allows. A width that allows so many tasks
plans what no width plans. -/
theorem maxWidth_met (width : Width) (workload : Workload) :
    let half := (workload.partitions + 1) / 2
    (Greedy.plan width workload).maxWidth = width.cap half ∧
    (∃ first rest, (Greedy.plan width workload).batches = first :: rest ∧
      first.size = width.cap half) ∧
    (width.Allows half → Greedy.plan width workload = Greedy.plan .unbounded workload) ∧
    (workload.partitions % 2 = 0 →
      (RoundRobin.plan width workload).maxWidth = width.cap workload.partitions ∧
      (width.Allows workload.partitions →
        RoundRobin.plan width workload = RoundRobin.plan .unbounded workload)) ∧
    (workload.partitions % 2 = 1 →
      (RoundRobin.plan width workload).maxWidth = width.cap half ∧
      (width.Allows half →
        RoundRobin.plan width workload = RoundRobin.plan .unbounded workload)) :=
  ⟨Greedy.maxWidth_plan width workload, Greedy.exists_first_batch width workload,
    Greedy.plan_eq_unbounded,
    fun even => ⟨RoundRobin.maxWidth_plan_even even, RoundRobin.plan_eq_unbounded_even even⟩,
    fun odd => ⟨RoundRobin.maxWidth_plan_odd odd, RoundRobin.plan_eq_unbounded_odd odd⟩⟩

/-- Five partitions have batches of three tasks, so that a width of three does not matter and one of two
is met; with four partitions round robin makes use of a width of three, and only one of four does not
matter. -/
theorem four_and_five_partitions_maxWidth :
    (Greedy.plan (.atMost 2 (by decide)) ⟨5, by decide⟩).maxWidth = 2 ∧
    Greedy.plan (.atMost 3 (by decide)) ⟨5, by decide⟩ = Greedy.plan .unbounded ⟨5, by decide⟩ ∧
    (RoundRobin.plan (.atMost 3 (by decide)) ⟨4, by decide⟩).maxWidth = 3 ∧
    RoundRobin.plan (.atMost 4 (by decide)) ⟨4, by decide⟩ =
      RoundRobin.plan .unbounded ⟨4, by decide⟩ ∧
    (RoundRobin.plan .unbounded ⟨5, by decide⟩).maxWidth = 3 := by
  obtain ⟨two, -⟩ := maxWidth_met (.atMost 2 (by decide)) ⟨5, by decide⟩
  obtain ⟨-, -, three, -⟩ := maxWidth_met (.atMost 3 (by decide)) ⟨5, by decide⟩
  obtain ⟨-, -, -, even, -⟩ := maxWidth_met (.atMost 3 (by decide)) ⟨4, by decide⟩
  obtain ⟨-, -, -, wide, -⟩ := maxWidth_met (.atMost 4 (by decide)) ⟨4, by decide⟩
  obtain ⟨-, -, -, -, odd⟩ := maxWidth_met .unbounded ⟨5, by decide⟩
  exact ⟨two, three (Width.allows_atMost.mpr (by decide)), (even rfl).1,
    (wide rfl).2 (Width.allows_atMost.mpr (by decide)), (odd rfl).1⟩

end AllPairs
