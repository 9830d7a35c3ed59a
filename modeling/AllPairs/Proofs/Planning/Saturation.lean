import AllPairs.Proofs.Planning.GreedyLoop
import Mathlib.Data.List.Perm.Basic

/-!
# Widths that never bind

A batch of pairs of `n` partitions that holds half of `n`, rounded up, or more uses every partition.
A width that allows so many tasks therefore never turns a pair or a diagonal task away that would fit
otherwise, and the greedy planner plans as if there were no width at all.
-/

namespace AllPairs

namespace Width

theorem Allows.le_of_not_hasRoom {width : Width} {bound size : Nat} (wide : width.Allows bound)
    (full : ¬ width.HasRoom size) : bound ≤ size := by
  cases width with
  | unbounded => exact absurd (hasRoom_unbounded size) full
  | atMost limit pos =>
    have fits : bound ≤ limit := wide limit rfl
    rw [hasRoom_atMost] at full
    omega

end Width

/-- As many different partitions below a number as it has are all of them. -/
theorem mem_of_nodup_of_le_length {n : Nat} {used : List Partition} (unique : used.Nodup)
    (below : ∀ p ∈ used, p < n) (many : n ≤ used.length) {p : Partition} (hp : p < n) : p ∈ used := by
  have inside : used ⊆ List.range n := fun q hq => List.mem_range.mpr (below q hq)
  have all : used.Perm (List.range n) :=
    (List.subperm_of_subset unique inside).perm_of_length_le (by simpa using many)
  exact all.mem_iff.mpr (List.mem_range.mpr hp)

namespace Greedy

variable {width : Width} {n : Nat}

/-- Both partitions of the pair are below `n`, and they are different. -/
def Within (n : Nat) (pair : Partition × Partition) : Prop :=
  pair.1 ≠ pair.2 ∧ pair.1 < n ∧ pair.2 < n

/-- The active partitions are those of `size` disjoint pairs of partitions below `n`. -/
def Occupied (n : Nat) (active : IndexSet) (size : Nat) : Prop :=
  ∃ used : List Partition, used.Nodup ∧ (∀ p ∈ used, p < n) ∧ used.length = 2 * size ∧
    ∀ p, p ∈ active ↔ p ∈ used

theorem occupied_empty (n : Nat) : Occupied n .empty 0 :=
  ⟨[], List.nodup_nil, by simp, rfl, by simp⟩

theorem Occupied.insert {active : IndexSet} {size : Nat} (h : Occupied n active size)
    {pair : Partition × Partition} (within : Within n pair) (first : pair.1 ∉ active)
    (second : pair.2 ∉ active) :
    Occupied n ((active.insert pair.1).insert pair.2) (size + 1) := by
  obtain ⟨used, unique, below, count, same⟩ := h
  rw [same] at first second
  refine ⟨pair.2 :: pair.1 :: used, ?_, ?_, ?_, ?_⟩
  · rw [List.nodup_cons, List.nodup_cons, List.mem_cons, not_or]
    exact ⟨⟨within.1.symm, second⟩, first, unique⟩
  · rw [List.forall_mem_cons, List.forall_mem_cons]
    exact ⟨within.2.2, within.2.1, below⟩
  · simp only [List.length_cons]
    omega
  · intro p
    rw [IndexSet.mem_insert, IndexSet.mem_insert, same, List.mem_cons, List.mem_cons]

/-- Half of the partitions in pairs, rounded up, are all of them. -/
theorem Occupied.mem_active {active : IndexSet} {size : Nat} (h : Occupied n active size)
    (many : (n + 1) / 2 ≤ size) {p : Partition} (hp : p < n) : p ∈ active := by
  obtain ⟨used, unique, below, count, same⟩ := h
  rw [same]
  exact mem_of_nodup_of_le_length unique below (by omega) hp

/-- A wide batch admits whatever a batch without a width admits. -/
theorem sweep_eq_unbounded (wide : width.Allows ((n + 1) / 2)) {active : IndexSet} {size : Nat}
    {queue : List (Partition × Partition)} (within : ∀ pair ∈ queue, Within n pair)
    (occupied : Occupied n active size) :
    sweep width active size queue = sweep .unbounded active size queue := by
  fun_induction sweep width active size queue with
  | case1 => rfl
  | case2 active size first second rest free swept ih =>
    obtain ⟨inside, others⟩ := List.forall_mem_cons.mp within
    have same := ih others (occupied.insert inside free.2.1 free.2.2)
    simp only [sweep, Width.hasRoom_unbounded, free.2.1, free.2.2, not_false_eq_true, and_self,
      if_true, swept, same]
  | case3 active size first second rest busy swept ih =>
    obtain ⟨inside, others⟩ := List.forall_mem_cons.mp within
    -- Without room every partition is in use, so the pair is not free either.
    have clash : ¬ (first ∉ active ∧ second ∉ active) := by
      rintro ⟨free, freeOther⟩
      have full : ¬ width.HasRoom size := fun room => busy ⟨room, free, freeOther⟩
      exact free (occupied.mem_active (wide.le_of_not_hasRoom full) inside.2.1)
    have same := ih others occupied
    simp only [sweep, Width.hasRoom_unbounded, true_and, clash, if_false, swept, same]

/-- A wide batch takes the diagonal task that it takes without a width. -/
theorem backfilled_eq_unbounded (wide : width.Allows ((n + 1) / 2))
    {pairs : List (Partition × Partition)} (disjoint : (Batch.ofPairs pairs).Disjoint)
    (within : ∀ pair ∈ pairs, Within n pair) {pending : List Partition}
    (below : ∀ p ∈ pending, p < n) :
    (Batch.ofPairs pairs).backfilled width pending =
      (Batch.ofPairs pairs).backfilled .unbounded pending := by
  by_cases room : width.HasRoom (Batch.ofPairs pairs).size
  · simp only [Batch.backfilled, room, Width.hasRoom_unbounded, if_true]
  have many : (n + 1) / 2 ≤ pairs.length := by
    rw [← Batch.size_ofPairs]
    exact wide.le_of_not_hasRoom room
  have count := Batch.length_partitions_ofPairs pairs
  have inside : ∀ p ∈ (Batch.ofPairs pairs).partitions, p < n := by
    intro p hp
    rw [Batch.partitions_ofPairs, List.mem_flatMap] at hp
    obtain ⟨pair, mem, hp⟩ := hp
    obtain ⟨-, first, second⟩ := within pair mem
    rcases List.mem_pair.mp hp with rfl | rfl
    · exact first
    · exact second
  have none : backfill (Batch.ofPairs pairs).partitions pending = none := by
    rw [backfill_eq_none_iff]
    intro p hp
    exact mem_of_nodup_of_le_length disjoint inside (by omega) (below p hp)
  simp only [Batch.backfilled, room, if_false, Width.hasRoom_unbounded, if_true, none]

theorem closeBatch_eq_unbounded (wide : width.Allows ((n + 1) / 2))
    {queue : List (Partition × Partition)} (within : ∀ pair ∈ queue, Within n pair)
    {pending : List Partition} (below : ∀ p ∈ pending, p < n) :
    closeBatch width queue pending = closeBatch .unbounded queue pending := by
  have swept := sweep_eq_unbounded wide within (occupied_empty n)
  have disjoint : (Batch.ofPairs (sweep .unbounded .empty 0 queue).admitted).Disjoint :=
    (disjoint_admitted fun pair mem => (within pair mem).1).1
  have admitted : ∀ pair ∈ (sweep .unbounded .empty 0 queue).admitted, Within n pair := by
    intro pair mem
    exact within pair ((sweep_perm _ _ _ _).mem_iff.mp (List.mem_append_left _ mem))
  simp only [closeBatch, swept, backfilled_eq_unbounded wide disjoint admitted below]

theorem closeBatches_eq_unbounded (wide : width.Allows ((n + 1) / 2))
    {queue : List (Partition × Partition)} (within : ∀ pair ∈ queue, Within n pair)
    {pending : List Partition} (below : ∀ p ∈ pending, p < n) :
    closeBatches width queue pending = closeBatches .unbounded queue pending := by
  fun_induction closeBatches width queue pending with
  | case1 => rw [closeBatches_nil]
  | case2 pair rest pending closing others left found ih =>
    have same : closing = closeBatch .unbounded (pair :: rest) pending :=
      closeBatch_eq_unbounded wide within below
    have deferred : ∀ other ∈ closing.deferred, Within n other := by
      intro other mem
      exact within other ((sweep_perm _ _ _ _).mem_iff.mp (List.mem_append_right _ mem))
    have kept : ∀ p ∈ closing.diagonals, p < n := by
      intro p hp
      exact below p ((Batch.backfilled_sublist _ _ _).mem hp)
    have later := ih deferred kept
    rw [found] at later
    simp only [closeBatches_cons, ← same, ← later]

/-- A width of at least half the number of partitions, rounded up, does not change what the greedy
planner plans. -/
theorem plan_eq_unbounded {workload : Workload}
    (wide : width.Allows ((workload.partitions + 1) / 2)) :
    plan width workload = plan .unbounded workload := by
  have within : ∀ pair ∈ workload.pairs, Within workload.partitions pair := by
    rintro ⟨i, j⟩ mem
    obtain ⟨ascending, below⟩ := Workload.mem_pairsBelow.mp mem
    exact ⟨Nat.ne_of_lt ascending, Nat.lt_trans ascending below, below⟩
  have below : ∀ p ∈ List.range workload.partitions, p < workload.partitions :=
    fun p => List.mem_range.mp
  simp only [plan, crossPhase, closeBatches_eq_unbounded wide within below]

end Greedy
end AllPairs
