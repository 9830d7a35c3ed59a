import AllPairs.Proofs.Counting
import AllPairs.Proofs.Planning.GreedyLoop

/-!
# How far greedy planning is from the best plan

Whatever keeps a task out of a batch can be charged to that batch. A pair that is left to the last batch
found every earlier one full of pairs or met one of its partitions there; a diagonal task that is left
over found every batch full, or saw it take another diagonal task, or met its partition there. Full
batches are few, since together they hold no more pairs than there are, and a partition is met in no
more batches than it has partners. So there are at most `2 n - 1` batches besides the full ones, while
every schedule needs `n` batches and room for all tasks.
-/

namespace AllPairs

namespace Width

theorem not_hasRoom_mono {width : Width} {size more : Nat} (full : ¬ width.HasRoom size)
    (le : size ≤ more) : ¬ width.HasRoom more :=
  fun room => full fun limit given => Nat.lt_of_le_of_lt le (room limit given)

end Width

namespace Batch

/-- Pairs leave no room for another task in the batch. -/
def Full (width : Width) (batch : Batch) : Prop :=
  ¬ width.HasRoom batch.crossCount

instance (width : Width) (batch : Batch) : Decidable (batch.Full width) :=
  inferInstanceAs (Decidable (¬ _))

variable (width : Width) (batch : Batch) (pending : List Partition)

@[simp]
theorem crossCount_backfilled :
    (batch.backfilled width pending).1.crossCount = batch.crossCount := by
  obtain ⟨same, -⟩ | ⟨p, left, moved, -⟩ := batch.backfilled_cases width pending
  · rw [same]
  · rw [moved, crossCount_push_diagonal]

@[simp]
theorem joinCount_backfilled (p : Partition) :
    (batch.backfilled width pending).1.joinCount p = batch.joinCount p := by
  obtain ⟨same, -⟩ | ⟨q, left, moved, -⟩ := batch.backfilled_cases width pending
  · rw [same]
  · rw [moved, joinCount_push_diagonal]

@[simp]
theorem full_backfilled : (batch.backfilled width pending).1.Full width ↔ batch.Full width := by
  rw [Full, crossCount_backfilled, Full]

end Batch

namespace Greedy

variable {width : Width} {workload : Workload}

/-! ## What keeps a task out of a batch -/

/-- A pair is deferred if the batch runs full or uses one of its partitions. -/
theorem deferred_blocked {active : IndexSet} {size : Nat} {queue : List (Partition × Partition)}
    {pair : Partition × Partition} (mem : pair ∈ (sweep width active size queue).deferred) :
    ¬ width.HasRoom (size + (sweep width active size queue).admitted.length) ∨
      (pair.1 ∈ active ∨
        pair.1 ∈ (Batch.ofPairs (sweep width active size queue).admitted).partitions) ∨
      (pair.2 ∈ active ∨
        pair.2 ∈ (Batch.ofPairs (sweep width active size queue).admitted).partitions) := by
  fun_induction sweep width active size queue with
  | case1 => cases mem
  | case2 active size first second rest free swept ih =>
    -- What was made active for the rest of the sweep belongs to the pairs of the batch.
    have used : ∀ p, (p ∈ (active.insert first).insert second ∨
          p ∈ (Batch.ofPairs swept.admitted).partitions) ↔
        (p ∈ active ∨ p ∈ (Batch.ofPairs ((first, second) :: swept.admitted)).partitions) := by
      intro p
      simp only [IndexSet.mem_insert, Batch.partitions_ofPairs, List.flatMap_cons, List.mem_append,
        List.mem_pair]
      tauto
    have count : size + 1 + swept.admitted.length =
        size + ((first, second) :: swept.admitted).length := by
      rw [List.length_cons]
      omega
    have later := ih mem
    rwa [used, used, count] at later
  | case3 active size first second rest busy swept ih =>
    rcases List.mem_cons.mp mem with rfl | later
    · by_cases room : width.HasRoom size
      · have clash : first ∈ active ∨ second ∈ active := by
          by_contra free
          exact busy ⟨room, not_or.mp free⟩
        exact .inr (clash.imp .inl .inl)
      · exact .inl (Width.not_hasRoom_mono room (Nat.le_add_right ..))
    · exact ih later

/-- The pair is kept out of the batch: pairs fill it, or one of them meets the pair. -/
def Blocked (width : Width) (pair : Partition × Partition) (batch : Batch) : Prop :=
  batch.Full width ∨ 0 < batch.joinCount pair.1 ∨ 0 < batch.joinCount pair.2

/-- A turn keeps every pair out that it defers. -/
theorem blocked_closeBatch {queue : List (Partition × Partition)} {diagonals : List Partition}
    {pair : Partition × Partition} (mem : pair ∈ (closeBatch width queue diagonals).deferred) :
    Blocked width pair (closeBatch width queue diagonals).batch := by
  have blocked := deferred_blocked mem
  simp only [IndexSet.not_mem_empty, false_or, Nat.zero_add] at blocked
  change Blocked width pair ((Batch.ofPairs _).backfilled width diagonals).1
  rw [Blocked, Batch.full_backfilled, Batch.joinCount_backfilled, Batch.joinCount_backfilled,
    Batch.joinCount_ofPairs_pos, Batch.joinCount_ofPairs_pos, Batch.Full, Batch.crossCount_ofPairs]
  exact blocked

/-- Some pair is kept out of every batch but its own. -/
theorem exists_blocked {queue : List (Partition × Partition)} (waiting : queue ≠ [])
    (diagonals : List Partition) :
    ∃ pair ∈ queue, ∀ batch ∈ (closeBatches width queue diagonals).1, Blocked width pair batch := by
  fun_induction closeBatches width queue diagonals with
  | case1 => exact absurd rfl waiting
  | case2 pair rest diagonals closing others left found ih =>
    by_cases last : closing.deferred = []
    · -- The only batch is that of the first pair itself.
      have single : others = [] := by
        rw [last, closeBatches_nil] at found
        exact (Prod.mk.inj found).1.symm
      have own : 0 < closing.batch.joinCount pair.1 := by
        change 0 < ((Batch.ofPairs _).backfilled width diagonals).1.joinCount pair.1
        rw [Batch.joinCount_backfilled, Batch.joinCount_ofPairs_pos, sweep_empty_cons]
        simp
      refine ⟨pair, List.mem_cons_self, ?_⟩
      rw [single, List.forall_mem_singleton]
      exact .inr (.inl own)
    · obtain ⟨other, mem, blocked⟩ := ih last
      rw [found] at blocked
      refine ⟨other, (sweep_perm _ _ _ _).mem_iff.mp (List.mem_append_right _ mem), ?_⟩
      exact List.forall_mem_cons.mpr ⟨blocked_closeBatch mem, blocked⟩

theorem closeBatches_sublist (width : Width) (queue : List (Partition × Partition))
    (diagonals : List Partition) : (closeBatches width queue diagonals).2.Sublist diagonals := by
  fun_induction closeBatches width queue diagonals with
  | case1 => exact .refl _
  | case2 pair rest diagonals closing others left found ih =>
    rw [found] at ih
    exact ih.trans (Batch.backfilled_sublist ..)

/-- A diagonal task that is left over found every batch full, or its partition in use there, or another
diagonal task in its place. -/
theorem left_blocked {queue : List (Partition × Partition)} {diagonals : List Partition}
    {p : Partition} (mem : p ∈ (closeBatches width queue diagonals).2) :
    ∀ batch ∈ (closeBatches width queue diagonals).1,
      batch.Full width ∨ 0 < batch.joinCount p ∨ 0 < batch.diagonalCount := by
  fun_induction closeBatches width queue diagonals with
  | case1 => simp
  | case2 pair rest diagonals closing others left found ih =>
    have pending : p ∈ closing.diagonals := by
      refine (closeBatches_sublist width closing.deferred closing.diagonals).mem ?_
      rwa [found]
    rw [found] at ih
    refine List.forall_mem_cons.mpr ⟨?_, ih mem⟩
    change p ∈ ((Batch.ofPairs _).backfilled width diagonals).2 at pending
    change ((Batch.ofPairs _).backfilled width diagonals).1.Full width ∨
      0 < ((Batch.ofPairs _).backfilled width diagonals).1.joinCount p ∨
      0 < ((Batch.ofPairs _).backfilled width diagonals).1.diagonalCount
    rw [Batch.full_backfilled, Batch.joinCount_backfilled, Batch.joinCount_ofPairs_pos, Batch.Full,
      Batch.crossCount_ofPairs, ← Batch.size_ofPairs]
    obtain ⟨same, used⟩ | ⟨q, others, moved, -⟩ := Batch.backfilled_cases width
      (Batch.ofPairs (sweep width .empty 0 (pair :: rest)).admitted) diagonals
    · rw [same] at pending
      by_cases room : width.HasRoom
        (Batch.ofPairs (sweep width .empty 0 (pair :: rest)).admitted).size
      · exact .inr (.inl (used room p pending))
      · exact .inl room
    · rw [moved, Batch.diagonalCount_push_diagonal]
      exact .inr (.inr (Nat.succ_pos _))

/-! ## How many batches there are -/

/-- The number of batches of the plan that pairs fill. -/
def fullCount (width : Width) (workload : Workload) : Nat :=
  (plan width workload).batches.countP fun batch => batch.Full width

theorem batches_plan :
    (plan width workload).batches = (crossPhase width workload).1 ++
      (crossPhase width workload).2.map fun partition => ⟨[.diagonal partition]⟩ := rfl

theorem size_eq_add :
    (plan width workload).size =
      (crossPhase width workload).1.length + (crossPhase width workload).2.length := by
  rw [Schedule.size, batches_plan, List.length_append, List.length_map]

theorem countP_crossPhase_le (kind : Batch → Bool) :
    (crossPhase width workload).1.countP kind ≤ (plan width workload).batches.countP kind :=
  (List.sublist_append_left _ _).countP_le

/-- The batches of pairs take the diagonal tasks that are not left over. -/
theorem countP_diagonalCount_add_le :
    ((crossPhase width workload).1.countP fun batch => 0 < batch.diagonalCount) +
      (crossPhase width workload).2.length ≤ workload.partitions := by
  have total := (plan_fulfils width workload).cover.sum_diagonalCount
  have alone : (((crossPhase width workload).2.map fun partition =>
      Batch.mk [.diagonal partition]).map Batch.diagonalCount).sum =
        (crossPhase width workload).2.length := by
    simp [Function.comp_def, Batch.diagonalCount, Task.isDiagonal]
  rw [batches_plan, List.map_append, List.sum_append, alone] at total
  have bound := countP_pos_le_sum_map Batch.diagonalCount (crossPhase width workload).1
  omega

/-- If pairs are left to the last batch, every batch of pairs but the full ones meets one of the two
partitions of such a pair. -/
theorem length_crossPhase_le :
    (crossPhase width workload).1.length ≤
      fullCount width workload + 2 * (workload.partitions - 1) := by
  have cover := (plan_fulfils width workload).cover
  by_cases none : workload.pairs = []
  · rw [crossPhase, none, closeBatches_nil]
    exact Nat.zero_le _
  obtain ⟨pair, mem, last⟩ := @exists_blocked width _ none (List.range workload.partitions)
  have blocked : ∀ batch ∈ (crossPhase width workload).1,
      batch.Full width ∨ 0 < batch.joinCount pair.1 ∨ 0 < batch.joinCount pair.2 := last
  obtain ⟨ascending, below⟩ : pair.1 < pair.2 ∧ pair.2 < workload.partitions :=
    Workload.mem_pairsBelow.mp mem
  have full := @countP_crossPhase_le width workload fun batch => batch.Full width
  have first := @countP_crossPhase_le width workload fun batch => 0 < batch.joinCount pair.1
  have second := @countP_crossPhase_le width workload fun batch => 0 < batch.joinCount pair.2
  have joinedFirst := cover.countP_joinCount_lt (Nat.lt_trans ascending below)
  have joinedSecond := cover.countP_joinCount_lt below
  have bound := length_le_countP_add blocked
  rw [fullCount]
  omega

/-- If diagonal tasks are left over, every batch of pairs but the full ones meets the partition of such a
task or takes another diagonal task. -/
theorem length_crossPhase_add_le {p : Partition} (left : p ∈ (crossPhase width workload).2) :
    (crossPhase width workload).1.length + (crossPhase width workload).2.length ≤
      fullCount width workload + (workload.partitions - 1) + workload.partitions := by
  have cover := (plan_fulfils width workload).cover
  have below : p < workload.partitions :=
    List.mem_range.mp ((closeBatches_sublist width workload.pairs _).mem left)
  have blocked : ∀ batch ∈ (crossPhase width workload).1,
      batch.Full width ∨ 0 < batch.joinCount p ∨ 0 < batch.diagonalCount := left_blocked left
  have full := @countP_crossPhase_le width workload fun batch => batch.Full width
  have joins := @countP_crossPhase_le width workload fun batch => 0 < batch.joinCount p
  have joined := cover.countP_joinCount_lt below
  have supplied := @countP_diagonalCount_add_le width workload
  have bound := length_le_countP_add blocked
  rw [fullCount]
  omega

/-- Besides the full batches there are at most `2 n - 1`. -/
theorem size_plan_le (width : Width) (workload : Workload) :
    (plan width workload).size ≤ 2 * workload.partitions - 1 + fullCount width workload := by
  have pos := workload.pos
  rw [size_eq_add]
  by_cases done : (crossPhase width workload).2 = []
  · have bound := @length_crossPhase_le width workload
    rw [done, List.length_nil]
    omega
  · obtain ⟨p, left⟩ := List.exists_mem_of_ne_nil _ done
    have bound := length_crossPhase_add_le left
    omega

/-- The full batches hold no more pairs than there are. -/
theorem mul_fullCount_le {limit : Nat} (given : limit ∈ width.limit?) :
    limit * fullCount width workload ≤ workload.partitions * (workload.partitions - 1) / 2 := by
  have each : ∀ batch ∈ (plan width workload).batches, batch.Full width → limit ≤ batch.crossCount := by
    intro batch _ full
    by_contra less
    refine full fun other same => ?_
    obtain rfl := Option.mem_unique given same
    exact Nat.lt_of_not_le less
  have bound := mul_countP_le_sum_map each
  have total := (plan_fulfils width workload).cover.sum_crossCount
  rw [fullCount]
  omega

theorem fullCount_unbounded : fullCount .unbounded workload = 0 := by
  refine List.countP_eq_zero.mpr fun batch _ full => ?_
  exact of_decide_eq_true full (Width.hasRoom_unbounded _)

/-! ## Main result -/

/-- Greedy planning is within a factor three of the best plan. With at most `w` tasks in a batch there
are no more than `2 n - 1` batches and as many as `w` goes into the number of pairs; without a limit
there are no more than `2 n - 1`. So there are fewer than three times as many as in any schedule that the
validator accepts and that keeps to the width. -/
theorem greedy_within_factor_three (width : Width) (workload : Workload) :
    (∀ limit ∈ width.limit?, (plan width workload).size ≤ 2 * workload.partitions - 1 +
      workload.partitions * (workload.partitions - 1) / 2 / limit) ∧
    (width = .unbounded → (plan width workload).size ≤ 2 * workload.partitions - 1) ∧
    ∀ schedule : Schedule, schedule.validate workload = .ok () →
      (∀ limit ∈ width.limit?, schedule.maxWidth ≤ limit) →
      (plan width workload).size < 3 * schedule.size := by
  have size := size_plan_le width workload
  refine ⟨?_, ?_, ?_⟩
  · intro limit given
    have full : fullCount width workload ≤ workload.partitions * (workload.partitions - 1) / 2 / limit := by
      rw [Nat.le_div_iff_mul_le (Width.limit_pos given), Nat.mul_comm]
      exact mul_fullCount_le given
    omega
  · rintro rfl
    rwa [fullCount_unbounded] at size
  · intro schedule accepted narrow
    have cover := Schedule.validate_eq_ok_iff.mp accepted
    have few := cover.partitions_le_size
    have full : fullCount width workload < schedule.size := by
      cases width with
      | unbounded =>
        rw [fullCount_unbounded]
        exact Nat.lt_of_lt_of_le workload.pos few
      | atMost limit pos =>
        refine Nat.lt_of_mul_lt_mul_left (a := limit) ?_
        calc limit * fullCount (.atMost limit pos) workload
            ≤ workload.partitions * (workload.partitions - 1) / 2 := mul_fullCount_le rfl
          _ < workload.size := by
            rw [workload.size_eq_add]
            exact Nat.lt_add_of_pos_right workload.pos
          _ ≤ limit * schedule.size := cover.size_le_mul_size (narrow limit rfl)
    omega

/-- Four partitions in batches of at most three tasks: fewer than twelve batches, since four would do. -/
theorem four_partitions_within_factor_three :
    Schedule.validate ⟨4, by decide⟩ ⟨4, [⟨[.cross 0 1, .cross 2 3]⟩, ⟨[.cross 0 2, .cross 1 3]⟩,
      ⟨[.cross 0 3, .diagonal 1, .diagonal 2]⟩, ⟨[.cross 1 2, .diagonal 0, .diagonal 3]⟩]⟩ = .ok () ∧
    (plan (.atMost 3 (by decide)) ⟨4, by decide⟩).size ≤ 2 * 4 - 1 + 4 * (4 - 1) / 2 / 3 ∧
    (plan (.atMost 3 (by decide)) ⟨4, by decide⟩).size < 3 * 4 := by
  have accepted : Schedule.validate ⟨4, by decide⟩ ⟨4, [⟨[.cross 0 1, .cross 2 3]⟩,
      ⟨[.cross 0 2, .cross 1 3]⟩, ⟨[.cross 0 3, .diagonal 1, .diagonal 2]⟩,
      ⟨[.cross 1 2, .diagonal 0, .diagonal 3]⟩]⟩ = .ok () := by decide
  obtain ⟨few, -, best⟩ := greedy_within_factor_three (.atMost 3 (by decide)) ⟨4, by decide⟩
  refine ⟨accepted, few 3 rfl, best _ accepted ?_⟩
  rintro _ ⟨⟩
  decide

end Greedy
end AllPairs
