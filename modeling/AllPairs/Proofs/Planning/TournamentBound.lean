import AllPairs.Proofs.Planning.TournamentSchedule

/-!
# How far round robin planning is from the best plan

Every round is cut by itself, so each of the `n` rounds or fewer may end in a chunk that is not full,
and so may the diagonal tasks at the end. Counted with room for `w` tasks in each, the batches therefore
exceed the tasks by at most `w - 1` for every round and once more. As long as `w` is at most `n`, that is
less than `n` times `w`; every schedule has room for all tasks, and at least `n` batches. For wider
batches the rounds are not cut at all.
-/

namespace AllPairs

namespace Width

variable {α : Type}

/-- Only the last piece has room left. -/
theorem length_pieces_mul_le (length : Nat) (pos : 0 < length) (items : List α) :
    (pieces length pos items).length * length ≤ items.length + (length - 1) := by
  fun_induction pieces length pos items with
  | case1 => simp
  | case2 item rest ih =>
    rw [List.length_drop] at ih
    rw [List.length_cons, Nat.add_mul, Nat.one_mul]
    by_cases short : (item :: rest).length ≤ length
    · rw [List.drop_of_length_le short, pieces]
      simp only [List.length_cons, List.length_nil]
      omega
    · omega

theorem length_chunks_mul_le {width : Width} {limit : Nat} (given : limit ∈ width.limit?)
    (items : List α) : (width.chunks items).length * limit ≤ items.length + (limit - 1) := by
  cases width with
  | unbounded => cases given
  | atMost bound pos =>
    obtain rfl := Option.some.inj given
    cases items with
    | nil => simp [chunks]
    | cons item rest => exact length_pieces_mul_le bound pos (item :: rest)

/-- Lists that are cut one by one have room left once for each list. -/
theorem length_flatMap_chunks_mul_le {width : Width} {limit : Nat} (given : limit ∈ width.limit?)
    (lists : List (List α)) :
    (lists.flatMap width.chunks).length * limit ≤
      lists.flatten.length + lists.length * (limit - 1) := by
  induction lists with
  | nil => simp
  | cons items lists ih =>
    have first := length_chunks_mul_le given items
    rw [List.flatMap_cons, List.length_append, Nat.add_mul, List.flatten_cons, List.length_append,
      List.length_cons, Nat.add_mul, Nat.one_mul]
    omega

end Width

namespace Batch

@[simp]
theorem length_backfillEach (width : Width) (batches : List Batch) (pending : List Partition) :
    (backfillEach width batches pending).1.length = batches.length := by
  induction batches generalizing pending with
  | nil => rfl
  | cons batch batches ih =>
    rw [backfillEach_cons, List.length_cons, List.length_cons, ih]

end Batch

theorem CircleMethod.length_rounds_le (n : Nat) : (rounds n).length ≤ n := by
  unfold rounds
  split
  · exact Nat.zero_le n
  · rw [List.length_map, List.length_range]
    omega

namespace RoundRobin

variable {width : Width} {workload : Workload}

/-- The rounds hold every pair once, and each of them may leave room in one batch. -/
theorem length_crossBatches_mul_le {limit : Nat} (given : limit ∈ width.limit?) :
    (crossBatches width workload).length * limit ≤
      workload.partitions * (workload.partitions - 1) / 2 + workload.partitions * (limit - 1) := by
  have pairs : (CircleMethod.rounds workload.partitions).flatten.length =
      workload.partitions * (workload.partitions - 1) / 2 := by
    rw [(CircleMethod.flatten_rounds_perm workload.partitions).length_eq]
    exact workload.length_pairs
  have cut := Width.length_flatMap_chunks_mul_le given (CircleMethod.rounds workload.partitions)
  have few := Nat.mul_le_mul_right (limit - 1) (CircleMethod.length_rounds_le workload.partitions)
  rw [crossBatches, List.length_map]
  omega

/-- The room that the batches of a plan have left. -/
theorem size_plan_mul_le {limit : Nat} (given : limit ∈ width.limit?) :
    (plan width workload).size * limit ≤
      workload.size + workload.partitions * (limit - 1) + (limit - 1) := by
  have crosses := @length_crossBatches_mul_le width workload limit given
  have few := (Batch.backfillEach_sublist width (crossBatches width workload)
    (List.range workload.partitions)).length_le
  have last := Width.length_chunks_mul_le given ((Batch.backfillEach width
    (crossBatches width workload) (List.range workload.partitions)).2.map Task.diagonal)
  rw [List.length_map] at last
  rw [List.length_range] at few
  rw [Schedule.size, plan, List.length_append, List.length_map, Batch.length_backfillEach,
    Nat.add_mul, workload.size_eq_add]
  omega

/-- A plan whose width never binds has as many batches as there are partitions. -/
theorem size_plan_of_wide (wide : width.Allows workload.partitions) :
    (plan width workload).size = workload.partitions := by
  rcases Nat.mod_two_eq_zero_or_one workload.partitions with even | odd
  · exact (rounds_before_diagonals even wide).1
  · have pos := workload.pos
    exact (rounds_with_diagonals odd (wide.mono (by omega))).1

/-- Round robin planning is within a factor two of the best plan: there are fewer than twice as many
batches as in any schedule that the validator accepts and that keeps to the width. -/
theorem roundRobin_within_factor_two (width : Width) (workload : Workload) (schedule : Schedule)
    (accepted : schedule.validate workload = .ok ())
    (narrow : ∀ limit ∈ width.limit?, schedule.maxWidth ≤ limit) :
    (plan width workload).size < 2 * schedule.size := by
  have pos := workload.pos
  have cover := Schedule.validate_eq_ok_iff.mp accepted
  have few := cover.partitions_le_size
  by_cases wide : width.Allows workload.partitions
  · rw [size_plan_of_wide wide]
    omega
  · obtain ⟨limit, given, less⟩ : ∃ limit ∈ width.limit?, limit < workload.partitions := by
      simpa [Width.Allows] using wide
    have limitPos := Width.limit_pos given
    refine Nat.lt_of_mul_lt_mul_right (a := limit) ?_
    have room := @size_plan_mul_le width workload limit given
    have tasks := cover.size_le_mul_size (narrow limit given)
    have rows := Nat.mul_le_mul_right limit few
    have rounds : workload.partitions * (limit - 1) + workload.partitions =
        workload.partitions * limit := by
      rw [← Nat.mul_succ, Nat.succ_eq_add_one, Nat.sub_add_cancel limitPos]
    calc (plan width workload).size * limit
        ≤ workload.size + workload.partitions * (limit - 1) + (limit - 1) := room
      _ < workload.size + workload.partitions * limit := by omega
      _ ≤ limit * schedule.size + schedule.size * limit := Nat.add_le_add tasks rows
      _ = 2 * schedule.size * limit := by ring

/-- Four partitions in batches of at most three tasks: fewer than eight batches, since four would do. -/
theorem four_partitions_within_factor_two :
    Schedule.validate ⟨4, by decide⟩ ⟨4, [⟨[.cross 0 1, .cross 2 3]⟩, ⟨[.cross 0 2, .cross 1 3]⟩,
      ⟨[.cross 0 3, .diagonal 1, .diagonal 2]⟩, ⟨[.cross 1 2, .diagonal 0, .diagonal 3]⟩]⟩ = .ok () ∧
    (plan (.atMost 3 (by decide)) ⟨4, by decide⟩).size < 2 * 4 := by
  have accepted : Schedule.validate ⟨4, by decide⟩ ⟨4, [⟨[.cross 0 1, .cross 2 3]⟩,
      ⟨[.cross 0 2, .cross 1 3]⟩, ⟨[.cross 0 3, .diagonal 1, .diagonal 2]⟩,
      ⟨[.cross 1 2, .diagonal 0, .diagonal 3]⟩]⟩ = .ok () := by decide
  refine ⟨accepted, roundRobin_within_factor_two (.atMost 3 (by decide)) ⟨4, by decide⟩ _ accepted ?_⟩
  rintro _ ⟨⟩
  decide

end RoundRobin
end AllPairs
