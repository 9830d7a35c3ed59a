import AllPairs.Proofs.Planning.NimSum

/-!
# The greedy schedule in closed form

Without a binding width the batches of the greedy schedule are those of the sums 1, 2, 3 and so on, up
to the last number with as many bits as the number of partitions. This holds for the diagonal tasks at
the end too, which only a power of two leaves over: they alone have sums with it that no pair has.
-/

namespace AllPairs

namespace Schedule

/-- The task stands, as written, in the batch with this index. -/
def Places (schedule : Schedule) (task : Task) (index : Nat) : Prop :=
  ∃ batch, schedule.batches[index]? = some batch ∧ task ∈ batch.tasks

end Schedule

namespace Nim

/-- A power of two and a smaller number have no bit in common. -/
theorem xor_two_pow {k p : Nat} (below : p < 2 ^ k) : p ^^^ 2 ^ k = 2 ^ k + p := by
  apply Nat.eq_of_testBit_eq
  intro i
  have bits := Nat.two_pow_add_eq_or_of_lt below 1
  rw [Nat.mul_one] at bits
  rw [bits, Nat.testBit_or, Nat.testBit_xor, Nat.testBit_two_pow]
  by_cases same : k = i
  · subst same
    simp [Nat.testBit_lt_two_pow below]
  · simp [same]

theorem clog_two_pow_succ (k : Nat) : Nat.clog 2 (2 ^ k + 1) = k + 1 := by
  have pos : 0 < 2 ^ k := Nat.two_pow_pos k
  apply Nat.le_antisymm
  · rw [Nat.clog_le_iff_le_pow (by decide), Nat.pow_succ]
    omega
  · exact (Nat.lt_clog_iff_pow_lt (by decide)).mpr (Nat.lt_succ_self _)

/-- A number that is no power of two lies below the next one. -/
theorem lt_two_pow_clog {n : Nat} (other : ∀ k, n ≠ 2 ^ k) : n < 2 ^ Nat.clog 2 n :=
  Nat.lt_of_le_of_ne (Nat.le_pow_clog (by decide) n) (other _)

theorem clog_succ_of_ne_two_pow {n : Nat} (other : ∀ k, n ≠ 2 ^ k) :
    Nat.clog 2 (n + 1) = Nat.clog 2 n := by
  apply Nat.le_antisymm
  · rw [Nat.clog_le_iff_le_pow (by decide)]
    exact lt_two_pow_clog other
  · exact Nat.clog_mono_right 2 (Nat.le_succ n)

end Nim

namespace Greedy

open Workload

variable {width : Width} {workload : Workload}

/-! ## The run of the loop -/

theorem closeBatch_waiting {n sum : Nat} (pos : 0 < sum) :
    closeBatch .unbounded (waiting n sum) (pending n sum) =
      ⟨nimBatch n sum, waiting n (sum + 1), pending n (sum + 1)⟩ := by
  simp only [closeBatch, sweep_waiting pos, backfilled_pairsWithSum pos]

theorem waiting_eq_nil_iff {n sum : Nat} (pos : 0 < sum) :
    waiting n sum = [] ↔ 2 ^ Nat.clog 2 n ≤ sum := by
  constructor
  · intro empty
    by_contra below
    obtain ⟨i, j, ascending, inside, rfl⟩ := Nim.exists_pair_iff.mpr ⟨pos, Nat.lt_of_not_le below⟩
    have mem : (i, j) ∈ waiting n (i ^^^ j) := mem_waiting.mpr ⟨⟨ascending, inside⟩, Nat.le_refl _⟩
    rw [empty] at mem
    cases mem
  · intro passed
    rw [List.eq_nil_iff_forall_not_mem]
    rintro ⟨i, j⟩ mem
    obtain ⟨⟨ascending, inside⟩, least⟩ := mem_waiting.mp mem
    have := (Nim.exists_pair_iff.mp ⟨i, j, ascending, inside, rfl⟩).2
    omega

/-- From any sum on the loop closes the batches of that sum and the greater ones. -/
theorem closeBatches_waiting {n sum count : Nat} (pos : 0 < sum)
    (all : sum + count = 2 ^ Nat.clog 2 n) :
    closeBatches .unbounded (waiting n sum) (pending n sum) =
      ((List.range' sum count).map (nimBatch n), pending n (2 ^ Nat.clog 2 n)) := by
  induction count generalizing sum with
  | zero =>
    rw [(waiting_eq_nil_iff pos).mpr (by omega), closeBatches_nil, ← all]
    rfl
  | succ count ih =>
    have busy : waiting n sum ≠ [] := by
      rw [Ne, waiting_eq_nil_iff pos]
      omega
    have later := ih (Nat.succ_pos sum) (by omega)
    obtain ⟨pair, rest, split⟩ := List.exists_cons_of_ne_nil busy
    have closed := closeBatch_waiting (n := n) pos
    rw [split] at closed ⊢
    simp only [closeBatches_cons, closed, later, List.range'_succ, List.map_cons]

/-- At first every pair waits. -/
theorem pairs_eq_waiting (workload : Workload) : workload.pairs = waiting workload.partitions 1 := by
  rw [Workload.pairs, waiting, eq_comm, List.filter_eq_self]
  rintro ⟨i, j⟩ mem
  have different := Nat.ne_of_lt (mem_pairsBelow.mp mem).1
  exact decide_eq_true (Nat.pos_of_ne_zero (Nat.xor_ne_zero_iff.mpr different))

theorem crossPhase_unbounded :
    crossPhase .unbounded workload =
      ((List.range' 1 (2 ^ Nat.clog 2 workload.partitions - 1)).map (nimBatch workload.partitions),
        pending workload.partitions (2 ^ Nat.clog 2 workload.partitions)) := by
  have diagonals : List.range workload.partitions = pending workload.partitions 1 := by
    rw [pending, eq_comm, List.filter_eq_self]
    intro p hp
    have different := Nat.ne_of_lt (List.mem_range.mp hp)
    exact decide_eq_true (Nat.pos_of_ne_zero (Nat.xor_ne_zero_iff.mpr different))
  have pos : 0 < 2 ^ Nat.clog 2 workload.partitions := Nat.two_pow_pos _
  have all : 1 + (2 ^ Nat.clog 2 workload.partitions - 1) = 2 ^ Nat.clog 2 workload.partitions := by
    omega
  rw [crossPhase, pairs_eq_waiting, diagonals, closeBatches_waiting (by decide) all]

/-! ## The diagonal tasks that are left over -/

/-- Only a power of two leaves diagonal tasks over, and it leaves over all of them. -/
theorem pending_two_pow (k : Nat) : pending (2 ^ k) (2 ^ k) = List.range (2 ^ k) := by
  rw [pending, List.filter_eq_self]
  intro p hp
  rw [Nim.xor_two_pow (List.mem_range.mp hp)]
  exact decide_eq_true (Nat.le_add_right _ _)

theorem pending_of_ne_two_pow {n : Nat} (other : ∀ k, n ≠ 2 ^ k) :
    pending n (2 ^ Nat.clog 2 n) = [] := by
  rw [List.eq_nil_iff_forall_not_mem]
  intro p hp
  obtain ⟨below, late⟩ := mem_pending.mp hp
  have bound := Nim.lt_two_pow_clog other
  have := Nat.xor_lt_two_pow (Nat.lt_trans below bound) bound
  omega

/-- A sum that no pair has is that of a single diagonal task. -/
theorem nimBatch_two_pow_add {k p : Nat} (below : p < 2 ^ k) :
    nimBatch (2 ^ k) (2 ^ k + p) = ⟨[.diagonal p]⟩ := by
  have none : pairsWithSum (2 ^ k) (2 ^ k + p) = [] := by
    rw [List.eq_nil_iff_forall_not_mem]
    rintro ⟨i, j⟩ mem
    obtain ⟨⟨ascending, inside⟩, sum⟩ := mem_pairsWithSum.mp mem
    have := Nat.xor_lt_two_pow (Nat.lt_trans ascending inside) inside
    omega
  have partner : (2 ^ k + p) ^^^ 2 ^ k = p := by
    rw [← Nim.xor_two_pow below, Nat.xor_xor_cancel_right]
  simp [nimBatch, none, partner, below, Batch.push, Batch.ofPairs]

theorem batches_eq_append :
    (plan .unbounded workload).batches =
      (List.range' 1 (2 ^ Nat.clog 2 workload.partitions - 1)).map (nimBatch workload.partitions) ++
        (pending workload.partitions (2 ^ Nat.clog 2 workload.partitions)).map
          fun partition => ⟨[.diagonal partition]⟩ := by
  rw [plan, crossPhase_unbounded]

/-- The batches of the greedy schedule are those of the sums up to the last number with as many bits
as the number of partitions. -/
theorem batches_unbounded :
    (plan .unbounded workload).batches =
      (List.range' 1 (2 ^ Nat.clog 2 (workload.partitions + 1) - 1)).map
        (nimBatch workload.partitions) := by
  rw [batches_eq_append]
  by_cases power : ∃ k, workload.partitions = 2 ^ k
  · obtain ⟨k, power⟩ := power
    have pos : 0 < 2 ^ k := Nat.two_pow_pos k
    have split : 2 ^ (k + 1) - 1 = (2 ^ k - 1) + 2 ^ k := by
      rw [Nat.pow_succ]
      omega
    have singles : (List.range' (2 ^ k) (2 ^ k)).map (nimBatch (2 ^ k)) =
        (List.range (2 ^ k)).map fun p => ⟨[.diagonal p]⟩ := by
      rw [List.range'_eq_map_range, List.map_map]
      exact List.map_congr_left fun p hp => nimBatch_two_pow_add (List.mem_range.mp hp)
    have next : 1 + (2 ^ k - 1) = 2 ^ k := by omega
    rw [power, Nim.clog_two_pow_succ, Nat.clog_pow 2 k (by decide), pending_two_pow, split,
      ← List.range'_append_1, next, List.map_append, singles]
  · have other : ∀ k, workload.partitions ≠ 2 ^ k := not_exists.mp power
    rw [pending_of_ne_two_pow other, Nim.clog_succ_of_ne_two_pow other]
    simp

/-! ## Where tasks stand -/

theorem places_iff (wide : width.Allows ((workload.partitions + 1) / 2)) {task : Task}
    {index : Nat} :
    (plan width workload).Places task index ↔
      index < 2 ^ Nat.clog 2 (workload.partitions + 1) - 1 ∧
        task ∈ (nimBatch workload.partitions (index + 1)).tasks := by
  rw [Schedule.Places, plan_eq_unbounded wide, batches_unbounded]
  constructor
  · rintro ⟨batch, found, mem⟩
    obtain ⟨inside, rfl⟩ := List.getElem?_eq_some_iff.mp found
    rw [List.length_map, List.length_range'] at inside
    rw [List.getElem_map, List.getElem_range', Nat.one_mul, Nat.add_comm] at mem
    exact ⟨inside, mem⟩
  · rintro ⟨inside, mem⟩
    refine ⟨_, ?_, mem⟩
    rw [List.getElem?_map, List.getElem?_range' inside, Option.map_some, Nat.one_mul, Nat.add_comm]

/-- A cross task stands in the batch of its sum, counted from one. -/
theorem places_cross_iff (wide : width.Allows ((workload.partitions + 1) / 2)) {i j index : Nat} :
    (plan width workload).Places (.cross i j) index ↔
      (i < j ∧ j < workload.partitions) ∧ i ^^^ j = index + 1 := by
  rw [places_iff wide, cross_mem_nimBatch, and_iff_right_iff_imp]
  rintro ⟨⟨ascending, below⟩, sum⟩
  have bound := (Nim.exists_pair_iff.mp ⟨i, j, ascending, below, sum⟩).2
  have grows : 2 ^ Nat.clog 2 workload.partitions ≤ 2 ^ Nat.clog 2 (workload.partitions + 1) :=
    Nat.pow_le_pow_right (by decide) (Nat.clog_mono_right 2 (Nat.le_succ workload.partitions))
  omega

/-- A diagonal task stands in the batch of the sum of its partition and the number of partitions. -/
theorem places_diagonal_iff (wide : width.Allows ((workload.partitions + 1) / 2)) {p index : Nat} :
    (plan width workload).Places (.diagonal p) index ↔
      p < workload.partitions ∧ p ^^^ workload.partitions = index + 1 := by
  rw [places_iff wide, diagonal_mem_nimBatch, and_iff_right_iff_imp]
  rintro ⟨below, sum⟩
  have bound : index + 1 < 2 ^ Nat.clog 2 (workload.partitions + 1) :=
    (Nim.exists_pair_iff.mp ⟨p, _, below, Nat.lt_succ_self _, sum⟩).2
  omega

/-- Some pair stands in the batch exactly if its number is below the next power of two. -/
theorem exists_places_cross_iff (wide : width.Allows ((workload.partitions + 1) / 2)) {index : Nat} :
    (∃ i j, (plan width workload).Places (.cross i j) index) ↔
      index < 2 ^ Nat.clog 2 workload.partitions - 1 := by
  have range : index < 2 ^ Nat.clog 2 workload.partitions - 1 ↔
      0 < index + 1 ∧ index + 1 < 2 ^ Nat.clog 2 workload.partitions := by omega
  rw [range, ← Nim.exists_pair_iff]
  simp only [places_cross_iff wide, and_assoc]

theorem size_plan (wide : width.Allows ((workload.partitions + 1) / 2)) :
    (plan width workload).size = 2 ^ Nat.clog 2 (workload.partitions + 1) - 1 := by
  rw [Schedule.size, plan_eq_unbounded wide, batches_unbounded, List.length_map, List.length_range']

/-- For a power of two the diagonal tasks stand in batches of their own, behind those of the pairs. -/
theorem drop_batches (wide : width.Allows ((workload.partitions + 1) / 2)) {k : Nat}
    (power : workload.partitions = 2 ^ k) :
    (plan width workload).batches.drop (workload.partitions - 1) =
      (List.range workload.partitions).map fun p => ⟨[.diagonal p]⟩ := by
  rw [plan_eq_unbounded wide, batches_eq_append, power, Nat.clog_pow 2 k (by decide),
    pending_two_pow]
  exact List.drop_left' (by simp)

/-! ## Main results -/

/-- Greedy planning is nim-addition. With a width of at least half the number of partitions, rounded
up, a cross task stands in the batch whose number is the sum of its partitions without carries. So two
cross tasks share a batch exactly if their sums agree, and the batches with cross tasks are the first
ones, as many as there are positive numbers below the next power of two. -/
theorem greedy_places_by_nim_sum (wide : width.Allows ((workload.partitions + 1) / 2)) :
    (∀ i j, i < j → j < workload.partitions → ∀ index,
      (plan width workload).Places (.cross i j) index ↔ index = (i ^^^ j) - 1) ∧
    (∀ i j k l, i < j → j < workload.partitions → k < l → l < workload.partitions →
      ((∃ index, (plan width workload).Places (.cross i j) index ∧
        (plan width workload).Places (.cross k l) index) ↔ i ^^^ j = k ^^^ l)) ∧
    (∀ index, (∃ i j, (plan width workload).Places (.cross i j) index) ↔
      index < 2 ^ Nat.clog 2 workload.partitions - 1) := by
  have place : ∀ i j, i < j → j < workload.partitions → ∀ index,
      (plan width workload).Places (.cross i j) index ↔ index = (i ^^^ j) - 1 := by
    intro i j ascending below index
    have pos := (Nim.exists_pair_iff.mp ⟨i, j, ascending, below, rfl⟩).1
    rw [places_cross_iff wide]
    constructor
    · rintro ⟨-, sum⟩
      omega
    · rintro rfl
      exact ⟨⟨ascending, below⟩, by omega⟩
  refine ⟨place, ?_, fun index => exists_places_cross_iff wide⟩
  intro i j k l ascending below ascendingOther belowOther
  have pos := (Nim.exists_pair_iff.mp ⟨i, j, ascending, below, rfl⟩).1
  have posOther := (Nim.exists_pair_iff.mp ⟨k, l, ascendingOther, belowOther, rfl⟩).1
  simp only [place i j ascending below, place k l ascendingOther belowOther, exists_eq_left]
  omega

/-- Among five partitions in batches of at most three tasks, the pair of 1 and 4 stands in batch 4 alone,
since its sum is 5, and that of 2 and 4 in another one. -/
theorem five_partitions_by_nim_sum :
    (Width.atMost 3 (by decide)).Allows ((5 + 1) / 2) ∧
    (∀ index, (plan (.atMost 3 (by decide)) ⟨5, by decide⟩).Places (.cross 1 4) index ↔ index = 4) ∧
    ¬ ∃ index, (plan (.atMost 3 (by decide)) ⟨5, by decide⟩).Places (.cross 1 4) index ∧
      (plan (.atMost 3 (by decide)) ⟨5, by decide⟩).Places (.cross 2 4) index := by
  have wide : (Width.atMost 3 (by decide)).Allows ((5 + 1) / 2) := by
    simp [Width.Allows, Width.limit?]
  obtain ⟨place, share, -⟩ :=
    @greedy_places_by_nim_sum (.atMost 3 (by decide)) ⟨5, by decide⟩ wide
  refine ⟨wide, place 1 4 (by decide) (by decide), ?_⟩
  rw [share 1 4 2 4 (by decide) (by decide) (by decide) (by decide)]
  decide

/-- How many batches the greedy planner needs with a width of at least half the number of partitions,
rounded up. A power of two leaves every diagonal task over to a batch of its own. For any other number
every batch holds a cross task, and every diagonal task shares a batch with one. -/
theorem greedy_batch_count (wide : width.Allows ((workload.partitions + 1) / 2)) :
    (∀ k, workload.partitions = 2 ^ k →
      (plan width workload).size = 2 * workload.partitions - 1 ∧
      (plan width workload).batches.drop (workload.partitions - 1) =
        (List.range workload.partitions).map (fun p => ⟨[.diagonal p]⟩) ∧
      ∀ index i j p, (plan width workload).Places (.cross i j) index →
        ¬ (plan width workload).Places (.diagonal p) index) ∧
    ((∀ k, workload.partitions ≠ 2 ^ k) →
      (plan width workload).size = 2 ^ Nat.clog 2 workload.partitions - 1 ∧
      (∀ index < (plan width workload).size,
        ∃ i j, (plan width workload).Places (.cross i j) index) ∧
      ∀ p < workload.partitions, ∃ index, (plan width workload).Places (.diagonal p) index ∧
        ∃ i j, (plan width workload).Places (.cross i j) index) := by
  constructor
  · intro k power
    have total : 2 ^ (k + 1) = 2 * 2 ^ k := by rw [Nat.pow_succ, Nat.mul_comm]
    refine ⟨?_, drop_batches wide power, ?_⟩
    · rw [size_plan wide, power, Nim.clog_two_pow_succ, total]
    · intro index i j p cross diagonal
      obtain ⟨⟨ascending, below⟩, sum⟩ := (places_cross_iff wide).mp cross
      obtain ⟨belowOther, sumOther⟩ := (places_diagonal_iff wide).mp diagonal
      rw [power] at below belowOther sumOther
      rw [Nim.xor_two_pow belowOther] at sumOther
      have := Nat.xor_lt_two_pow (Nat.lt_trans ascending below) below
      omega
  · intro other
    have count : (plan width workload).size = 2 ^ Nat.clog 2 workload.partitions - 1 := by
      rw [size_plan wide, Nim.clog_succ_of_ne_two_pow other]
    refine ⟨count, ?_, ?_⟩
    · intro index inside
      rw [count] at inside
      exact (exists_places_cross_iff wide).mpr inside
    · intro p below
      have pos := Nat.pos_of_ne_zero (Nat.xor_ne_zero_iff.mpr (Nat.ne_of_lt below))
      have bound := Nim.lt_two_pow_clog other
      have small := Nat.xor_lt_two_pow (Nat.lt_trans below bound) bound
      refine ⟨(p ^^^ workload.partitions) - 1, (places_diagonal_iff wide).mpr ⟨below, by omega⟩, ?_⟩
      exact (exists_places_cross_iff wide).mpr (by omega)

/-- Four partitions leave their diagonal tasks to the last four of seven batches; six partitions need
seven batches as well, and the diagonal task of 5 shares one with a pair. -/
theorem four_and_six_batch_count :
    (plan .unbounded ⟨4, by decide⟩).size = 7 ∧
    (plan .unbounded ⟨4, by decide⟩).batches.drop 3 =
      [⟨[.diagonal 0]⟩, ⟨[.diagonal 1]⟩, ⟨[.diagonal 2]⟩, ⟨[.diagonal 3]⟩] ∧
    (Width.atMost 3 (by decide)).Allows ((6 + 1) / 2) ∧ (∀ k, 6 ≠ 2 ^ k) ∧
    (plan (.atMost 3 (by decide)) ⟨6, by decide⟩).size = 7 ∧
    ∃ index, (plan (.atMost 3 (by decide)) ⟨6, by decide⟩).Places (.diagonal 5) index ∧
      ∃ i j, (plan (.atMost 3 (by decide)) ⟨6, by decide⟩).Places (.cross i j) index := by
  have wide : (Width.atMost 3 (by decide)).Allows ((6 + 1) / 2) := by
    simp [Width.Allows, Width.limit?]
  have other : ∀ k, 6 ≠ 2 ^ k := by
    rintro (_ | _ | _ | k)
    · decide
    · decide
    · decide
    · have pos := Nat.two_pow_pos k
      rw [Nat.pow_add]
      omega
  have unbounded : Width.unbounded.Allows ((4 + 1) / 2) := by simp [Width.Allows, Width.limit?]
  obtain ⟨four, -⟩ := @greedy_batch_count .unbounded ⟨4, by decide⟩ unbounded
  obtain ⟨-, six⟩ := @greedy_batch_count (.atMost 3 (by decide)) ⟨6, by decide⟩ wide
  obtain ⟨sizeFour, singles, -⟩ := four 2 rfl
  obtain ⟨sizeSix, -, backfilled⟩ := six other
  have clog : Nat.clog 2 6 = 3 := by decide +kernel
  refine ⟨sizeFour, singles, wide, other, ?_, backfilled 5 (by decide)⟩
  rw [sizeSix, clog]
  decide

end Greedy
end AllPairs
