import AllPairs.Proofs.Planning.Saturation
import Mathlib.Data.Nat.Bitwise
import Mathlib.Data.Nat.Log

/-!
# Greedy planning is nim-addition

The bitwise sum of two numbers without carries is the least number that is no such sum of either of
them with something smaller than the other. Admitting every pair that is still free, in ascending
order, makes the same choice: the first batch holds the pairs with sum 1, the second one those with
sum 2, and so on. A diagonal task takes part as if it joined its partition with one more partition
behind the last.
-/

namespace AllPairs

/-! ## Sums without carries -/

namespace Nim

/-- Two numbers determine the third of a sum. -/
theorem xor_eq_iff {a b c : Nat} : a ^^^ b = c ↔ a = c ^^^ b := by
  constructor
  · rintro rfl
    rw [Nat.xor_xor_cancel_right]
  · rintro rfl
    rw [Nat.xor_xor_cancel_right]

/-- Taking away the highest bit of a number leaves less than that bit. -/
theorem xor_two_pow_log2_lt {m : Nat} (pos : 0 < m) : m ^^^ 2 ^ m.log2 < 2 ^ m.log2 := by
  apply Nat.lt_pow_two_of_testBit
  intro i hi
  rw [Nat.testBit_xor, Nat.testBit_two_pow]
  rcases Nat.eq_or_lt_of_le hi with rfl | above
  · simp [Nat.testBit_log2 (Nat.ne_of_gt pos)]
  · have short : m < 2 ^ i :=
      Nat.lt_of_lt_of_le Nat.lt_log2_self (Nat.pow_le_pow_right (by decide) above)
    simp [Nat.testBit_eq_false_of_lt short, Nat.ne_of_lt above]

/-- The sums of pairs of different numbers below `n` are the positive numbers below the next power of
two. -/
theorem exists_pair_iff {n m : Nat} :
    (∃ i j, i < j ∧ j < n ∧ i ^^^ j = m) ↔ 0 < m ∧ m < 2 ^ Nat.clog 2 n := by
  constructor
  · rintro ⟨i, j, ascending, below, rfl⟩
    have bound : n ≤ 2 ^ Nat.clog 2 n := Nat.le_pow_clog (by decide) n
    refine ⟨Nat.pos_of_ne_zero (Nat.xor_ne_zero_iff.mpr (Nat.ne_of_lt ascending)), ?_⟩
    exact Nat.xor_lt_two_pow (by omega) (by omega)
  · rintro ⟨pos, below⟩
    -- The highest bit of the sum and the rest of it.
    refine ⟨m ^^^ 2 ^ m.log2, 2 ^ m.log2, xor_two_pow_log2_lt pos, ?_,
      Nat.xor_xor_cancel_right _ _⟩
    rw [← Nat.lt_clog_iff_pow_lt (by decide)]
    exact (Nat.log2_lt (Nat.ne_of_gt pos)).mpr below

end Nim

namespace Workload

/-- The pairs of distinct indices below `n` with the given sum, in ascending order. -/
def pairsWithSum (n sum : Nat) : List (Partition × Partition) :=
  (pairsBelow n).filter fun pair => pair.1 ^^^ pair.2 = sum

@[simp]
theorem mem_pairsWithSum {n sum i j : Nat} :
    (i, j) ∈ pairsWithSum n sum ↔ (i < j ∧ j < n) ∧ i ^^^ j = sum := by
  simp [pairsWithSum]

/-- A partition stands in a pair with the given sum if its partner is a partition. -/
theorem mem_partitions_pairsWithSum {n sum p : Nat} (pos : 0 < sum) :
    p ∈ (Batch.ofPairs (pairsWithSum n sum)).partitions ↔ p < n ∧ p ^^^ sum < n := by
  rw [Batch.partitions_ofPairs, List.mem_flatMap]
  constructor
  · rintro ⟨⟨i, j⟩, mem, hp⟩
    obtain ⟨⟨ascending, below⟩, rfl⟩ := mem_pairsWithSum.mp mem
    rcases List.mem_pair.mp hp with rfl | rfl
    · exact ⟨Nat.lt_trans ascending below, by rwa [Nat.xor_xor_cancel_left]⟩
    · refine ⟨below, ?_⟩
      rw [Nat.xor_comm, Nat.xor_xor_cancel_right]
      exact Nat.lt_trans ascending below
  · rintro ⟨below, partner⟩
    have different : p ^^^ sum ≠ p := by
      intro same
      rw [Nat.xor_comm, Nim.xor_eq_iff, Nat.xor_self] at same
      omega
    rcases Nat.lt_or_gt_of_ne different with first | second
    · refine ⟨(p ^^^ sum, p), mem_pairsWithSum.mpr ⟨⟨first, below⟩, ?_⟩, by simp⟩
      rw [Nat.xor_comm, Nat.xor_xor_cancel_left]
    · exact ⟨(p, p ^^^ sum), mem_pairsWithSum.mpr ⟨⟨second, partner⟩,
        Nat.xor_xor_cancel_left _ _⟩, by simp⟩

end Workload

namespace Greedy

open Workload

/-! ## First fit -/

/-- The pairs share a partition. -/
def Meets (p q : Partition × Partition) : Prop :=
  p.1 = q.1 ∨ p.1 = q.2 ∨ p.2 = q.1 ∨ p.2 = q.2

/-- A pair of the queue is kept if it meets no pair that stands earlier and is kept. -/
def FirstFit (keep : Partition × Partition → Prop) (queue : List (Partition × Partition)) : Prop :=
  ∀ earlier pair later, queue = earlier ++ pair :: later →
    (keep pair ↔ ∀ other ∈ earlier, keep other → ¬ Meets other pair)

/-- The active partitions are those of the pairs seen so far that are kept. -/
def Marks (keep : Partition × Partition → Prop) (seen : List (Partition × Partition))
    (active : IndexSet) : Prop :=
  ∀ p, p ∈ active ↔ ∃ pair ∈ seen, keep pair ∧ (p = pair.1 ∨ p = pair.2)

namespace Marks

variable {keep : Partition × Partition → Prop} {seen : List (Partition × Partition)}
  {active : IndexSet} {pair : Partition × Partition}

/-- A pair is free if it meets no kept pair. -/
theorem free_iff (marks : Marks keep seen active) :
    (pair.1 ∉ active ∧ pair.2 ∉ active) ↔ ∀ other ∈ seen, keep other → ¬ Meets other pair := by
  rw [marks, marks]
  constructor
  · rintro ⟨clear, clearOther⟩ other mem kept (same | same | same | same)
    · exact clear ⟨other, mem, kept, .inl same.symm⟩
    · exact clearOther ⟨other, mem, kept, .inl same.symm⟩
    · exact clear ⟨other, mem, kept, .inr same.symm⟩
    · exact clearOther ⟨other, mem, kept, .inr same.symm⟩
  · intro clear
    refine ⟨?_, ?_⟩
    · rintro ⟨other, mem, kept, same | same⟩
      · exact clear other mem kept (.inl same.symm)
      · exact clear other mem kept (.inr (.inr (.inl same.symm)))
    · rintro ⟨other, mem, kept, same | same⟩
      · exact clear other mem kept (.inr (.inl same.symm))
      · exact clear other mem kept (.inr (.inr (.inr same.symm)))

theorem insert (marks : Marks keep seen active) (kept : keep pair) :
    Marks keep (seen ++ [pair]) ((active.insert pair.1).insert pair.2) := by
  intro p
  rw [IndexSet.mem_insert, IndexSet.mem_insert, marks]
  simp only [List.mem_append, List.mem_singleton, or_and_right, exists_or, exists_eq_left]
  constructor
  · rintro (same | same | earlier)
    · exact .inr ⟨kept, .inr same⟩
    · exact .inr ⟨kept, .inl same⟩
    · exact .inl earlier
  · rintro (earlier | ⟨-, same | same⟩)
    · exact .inr (.inr earlier)
    · exact .inr (.inl same)
    · exact .inl same

theorem pass (marks : Marks keep seen active) (passed : ¬ keep pair) :
    Marks keep (seen ++ [pair]) active := by
  intro p
  rw [marks]
  simp only [List.mem_append, List.mem_singleton, or_and_right, exists_or, exists_eq_left, passed,
    false_and, or_false]

end Marks

/-- With room for every pair a sweep admits those that first fit keeps. -/
theorem sweep_eq_filter {keep : Partition × Partition → Prop} [DecidablePred keep]
    {seen queue : List (Partition × Partition)} {active : IndexSet} {size : Nat}
    (marks : Marks keep seen active) (fit : FirstFit keep (seen ++ queue)) :
    sweep .unbounded active size queue =
      ⟨queue.filter fun pair => keep pair, queue.filter fun pair => ¬ keep pair⟩ := by
  induction queue generalizing seen active size with
  | nil => rfl
  | cons pair rest ih =>
    obtain ⟨first, second⟩ := pair
    have onward : seen ++ (first, second) :: rest = (seen ++ [(first, second)]) ++ rest := by simp
    have free : keep (first, second) ↔ first ∉ active ∧ second ∉ active :=
      (fit seen (first, second) rest rfl).trans marks.free_iff.symm
    by_cases kept : keep (first, second)
    · have later := @ih _ _ (size + 1) (marks.insert kept) (onward ▸ fit)
      simp only [sweep, Width.hasRoom_unbounded, free.mp kept, and_self, not_false_eq_true, if_true,
        later, List.filter_cons, kept, decide_true, not_true_eq_false, decide_false,
        Bool.false_eq_true, if_false]
    · have later := @ih _ _ size (marks.pass kept) (onward ▸ fit)
      have busy : ¬ (first ∉ active ∧ second ∉ active) := fun clear => kept (free.mpr clear)
      simp only [sweep, Width.hasRoom_unbounded, true_and, busy, if_false, later, List.filter_cons,
        kept, decide_true, decide_false, Bool.false_eq_true, not_false_eq_true, if_true]

/-! ## The queue of a batch -/

/-- The pairs that wait for the batch with the given sum. -/
def waiting (n sum : Nat) : List (Partition × Partition) :=
  (pairsBelow n).filter fun pair => sum ≤ pair.1 ^^^ pair.2

theorem mem_waiting {n sum i j : Nat} :
    (i, j) ∈ waiting n sum ↔ (i < j ∧ j < n) ∧ sum ≤ i ^^^ j := by
  simp [waiting]

/-- In a queue the pairs that stand before another one are those that precede it. -/
theorem mem_earlier_iff {n sum : Nat} {earlier later : List (Partition × Partition)}
    {pair other : Partition × Partition} (split : waiting n sum = earlier ++ pair :: later) :
    other ∈ earlier ↔
      other ∈ waiting n sum ∧ (other.1 < pair.1 ∨ other.1 = pair.1 ∧ other.2 < pair.2) := by
  have sorted := (pairwise_pairsBelow n).filter fun pair => sum ≤ pair.1 ^^^ pair.2
  change (waiting n sum).Pairwise _ at sorted
  rw [split, List.pairwise_append, List.pairwise_cons] at sorted
  obtain ⟨-, ⟨after, -⟩, before⟩ := sorted
  rw [split, List.mem_append, List.mem_cons]
  constructor
  · intro mem
    exact ⟨.inl mem, before other mem pair List.mem_cons_self⟩
  · rintro ⟨mem | rfl | mem, precedes⟩
    · exact mem
    · lia
    · have := after other mem
      lia

/-- Of two pairs that meet and have the same sum neither precedes the other. -/
theorem not_precedes_of_meets {pair other : Partition × Partition} (ascending : pair.1 < pair.2)
    (ascendingOther : other.1 < other.2) (same : other.1 ^^^ other.2 = pair.1 ^^^ pair.2)
    (meets : Meets other pair) : ¬ (other.1 < pair.1 ∨ other.1 = pair.1 ∧ other.2 < pair.2) := by
  obtain ⟨i, j⟩ := pair
  obtain ⟨a, b⟩ := other
  simp only [Meets] at ascending ascendingOther same meets ⊢
  rcases meets with rfl | rfl | rfl | rfl
  · have : b = j := Nat.xor_right_inj.mp same
    lia
  · rw [Nat.xor_comm i, Nat.xor_right_inj] at same
    lia
  · rw [Nat.xor_comm a, Nat.xor_right_inj] at same
    lia
  · have : a = i := Nat.xor_left_inj.mp same
    lia

/-- A pair meets one with any smaller sum that precedes it. -/
theorem exists_meeting_of_lt {i j sum : Nat} (pos : 0 < sum) (ascending : i < j)
    (less : sum < i ^^^ j) :
    ∃ a b, a < b ∧ b ≤ j ∧ a ^^^ b = sum ∧ (a < i ∨ a = i ∧ b < j) ∧ Meets (a, b) (i, j) := by
  rcases Nat.lt_xor_cases less with first | second
  · -- The partner of `j` stands before `i`.
    exact ⟨sum ^^^ j, j, Nat.lt_trans first ascending, Nat.le_refl j, Nat.xor_xor_cancel_right _ _,
      .inl first, .inr (.inr (.inr rfl))⟩
  · -- The partner of `i` stands before `j`, on either side of `i`.
    have different : sum ^^^ i ≠ i := by
      intro same
      rw [Nim.xor_eq_iff, Nat.xor_self] at same
      omega
    rcases Nat.lt_or_gt_of_ne different with before | after
    · exact ⟨sum ^^^ i, i, before, Nat.le_of_lt ascending, Nat.xor_xor_cancel_right _ _, .inl before,
        .inr (.inr (.inl rfl))⟩
    · have back : i ^^^ (sum ^^^ i) = sum := by
        rw [Nat.xor_comm sum, Nat.xor_xor_cancel_left]
      exact ⟨i, sum ^^^ i, after, Nat.le_of_lt second, back, .inr ⟨rfl, second⟩, .inl rfl⟩

/-- Of the pairs whose sum is not yet passed, first fit keeps those with exactly that sum: a pair with
a greater sum meets one with the smaller sum that stands earlier. -/
theorem firstFit_waiting {n sum : Nat} (pos : 0 < sum) :
    FirstFit (fun pair => pair.1 ^^^ pair.2 = sum) (waiting n sum) := by
  rintro earlier ⟨i, j⟩ later split
  have member : (i, j) ∈ waiting n sum := by
    rw [split]
    exact List.mem_append_right _ List.mem_cons_self
  obtain ⟨⟨ascending, below⟩, least⟩ := mem_waiting.mp member
  constructor
  · rintro hit ⟨a, b⟩ mem same meets
    obtain ⟨listed, precedes⟩ := (mem_earlier_iff split).mp mem
    have ordered := (mem_waiting.mp listed).1
    exact not_precedes_of_meets ascending ordered.1 (same.trans hit.symm) meets precedes
  · intro clear
    by_contra greater
    have less : sum < i ^^^ j := Nat.lt_of_le_of_ne least fun same => greater same.symm
    obtain ⟨a, b, ordered, bound, same, precedes, meets⟩ := exists_meeting_of_lt pos ascending less
    have listed : (a, b) ∈ waiting n sum :=
      mem_waiting.mpr ⟨⟨ordered, Nat.lt_of_le_of_lt bound below⟩, Nat.le_of_eq same.symm⟩
    exact clear (a, b) ((mem_earlier_iff split).mpr ⟨listed, precedes⟩) same meets

/-- The batch with a sum takes the pairs with that sum and leaves those with greater sums. -/
theorem sweep_waiting {n sum : Nat} (pos : 0 < sum) :
    sweep .unbounded .empty 0 (waiting n sum) = ⟨pairsWithSum n sum, waiting n (sum + 1)⟩ := by
  have unused : Marks (fun pair => pair.1 ^^^ pair.2 = sum) [] .empty := by simp [Marks]
  have fit : FirstFit (fun pair => pair.1 ^^^ pair.2 = sum) ([] ++ waiting n sum) :=
    firstFit_waiting pos
  rw [sweep_eq_filter unused fit, Sweep.mk.injEq]
  unfold waiting pairsWithSum
  rw [List.filter_filter, List.filter_filter]
  refine ⟨List.filter_congr fun pair _ => ?_, List.filter_congr fun pair _ => ?_⟩
  · simp only [← Bool.decide_and, decide_eq_decide]
    lia
  · simp only [← Bool.decide_and, decide_eq_decide]
    lia

/-! ## The diagonal task of a batch -/

/-- The partitions whose diagonal tasks are pending when the batch with the given sum is closed. -/
def pending (n sum : Nat) : List Partition :=
  (List.range n).filter fun p => sum ≤ p ^^^ n

theorem mem_pending {n sum p : Nat} : p ∈ pending n sum ↔ p < n ∧ sum ≤ p ^^^ n := by
  simp [pending]

/-- The batch with the given sum: the pairs with that sum, and the diagonal task of the partition that
has that sum with the number of partitions. -/
def nimBatch (n sum : Nat) : Batch :=
  let batch := Batch.ofPairs (pairsWithSum n sum)
  if sum ^^^ n < n then batch.push (.diagonal (sum ^^^ n)) else batch

theorem cross_mem_nimBatch {n sum i j : Nat} :
    .cross i j ∈ (nimBatch n sum).tasks ↔ (i < j ∧ j < n) ∧ i ^^^ j = sum := by
  unfold nimBatch
  split <;> simp [Batch.push, mem_pairsWithSum]

theorem diagonal_mem_nimBatch {n sum p : Nat} :
    .diagonal p ∈ (nimBatch n sum).tasks ↔ p < n ∧ p ^^^ n = sum := by
  rw [Nim.xor_eq_iff]
  unfold nimBatch
  split
  · simp only [Batch.push, Batch.tasks_ofPairs, List.mem_append, List.mem_map, reduceCtorEq,
      and_false, exists_false, List.mem_singleton, Task.diagonal.injEq, false_or]
    constructor
    · rintro rfl
      exact ⟨‹_›, rfl⟩
    · exact fun h => h.2
  · simp only [Batch.tasks_ofPairs, List.mem_map, reduceCtorEq, and_false, exists_false, false_iff]
    rintro ⟨below, rfl⟩
    omega

/-- Partitions that stand before the one to take and were not taken earlier have greater sums, so the
batch uses them. -/
theorem mem_partitions_of_pending {n sum q : Nat} (pos : 0 < sum) (hq : q ∈ pending n sum)
    (other : q ^^^ n ≠ sum) (early : q < sum ^^^ n ∨ n ≤ sum ^^^ n) :
    q ∈ (Batch.ofPairs (pairsWithSum n sum)).partitions := by
  obtain ⟨below, later⟩ := mem_pending.mp hq
  have less : sum < q ^^^ n := Nat.lt_of_le_of_ne later fun same => other same.symm
  rw [mem_partitions_pairsWithSum pos]
  refine ⟨below, ?_⟩
  rcases Nat.lt_xor_cases less with first | second
  · lia
  · rwa [Nat.xor_comm]

theorem filter_pending (n sum : Nat) :
    (pending n sum).filter (· ≠ sum ^^^ n) = pending n (sum + 1) := by
  unfold pending
  rw [List.filter_filter]
  refine List.filter_congr fun q _ => ?_
  simp only [← Bool.decide_and, decide_eq_decide, ne_eq, ← Nim.xor_eq_iff]
  omega

/-- Backfilling takes the partition that has the sum of the batch with the number of partitions, as if
a diagonal task were a pair with one more partition behind the last. -/
theorem backfilled_pairsWithSum {n sum : Nat} (pos : 0 < sum) :
    (Batch.ofPairs (pairsWithSum n sum)).backfilled .unbounded (pending n sum) =
      (nimBatch n sum, pending n (sum + 1)) := by
  by_cases fits : sum ^^^ n < n
  · have mem : sum ^^^ n ∈ pending n sum :=
      mem_pending.mpr ⟨fits, by rw [Nat.xor_xor_cancel_right]⟩
    have free : sum ^^^ n ∉ (Batch.ofPairs (pairsWithSum n sum)).partitions := by
      rw [mem_partitions_pairsWithSum pos, Nat.xor_comm sum, Nat.xor_xor_cancel_right]
      omega
    have found : backfill (Batch.ofPairs (pairsWithSum n sum)).partitions (pending n sum) =
        some (sum ^^^ n, (pending n sum).filter (· ≠ sum ^^^ n)) := by
      refine backfill_eq_some_of_lowest (List.pairwise_lt_range.filter _) mem free ?_
      intro q hq lower
      have other : q ^^^ n ≠ sum := fun same => Nat.ne_of_lt lower (Nim.xor_eq_iff.mp same)
      exact mem_partitions_of_pending pos hq other (.inl lower)
    simp only [Batch.backfilled, Width.hasRoom_unbounded, if_true, found, nimBatch, fits,
      filter_pending]
  · have untaken : ∀ q ∈ pending n sum, q ≠ sum ^^^ n := by
      rintro q hq rfl
      exact fits (mem_pending.mp hq).1
    have none : backfill (Batch.ofPairs (pairsWithSum n sum)).partitions (pending n sum) = none := by
      rw [backfill_eq_none_iff]
      intro q hq
      have other : q ^^^ n ≠ sum := fun same => untaken q hq (Nim.xor_eq_iff.mp same)
      exact mem_partitions_of_pending pos hq other (.inr (Nat.le_of_not_lt fits))
    have rest : pending n (sum + 1) = pending n sum := by
      rw [← filter_pending, List.filter_eq_self]
      exact fun q hq => decide_eq_true (untaken q hq)
    simp only [Batch.backfilled, Width.hasRoom_unbounded, if_true, none, nimBatch, fits, if_false,
      rest]

end Greedy
end AllPairs
