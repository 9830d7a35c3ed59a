import AllPairs.Workload
import Mathlib.Data.List.Nodup
import Mathlib.Tactic.Ring

/-!
# The enumeration of a workload

The tasks of a workload are listed in strictly ascending order, so none is listed twice, and the
list holds exactly the normalized forms of the tasks that the workload contains. Their number is
that of the pairs of `n` partitions, `n (n - 1) / 2`, plus `n`.
-/

namespace AllPairs

namespace Task

theorem lt_irrefl (task : Task) : ¬ task < task := by
  cases task with
  | cross a b =>
    rintro (h | ⟨-, h⟩)
    · exact Nat.lt_irrefl _ h
    · exact Nat.lt_irrefl _ h
  | diagonal p => exact Nat.lt_irrefl p

theorem cross_lt_cross {a b c d : Partition} :
    cross a b < cross c d ↔ a < c ∨ a = c ∧ b < d := Iff.rfl

theorem diagonal_lt_diagonal {p q : Partition} : diagonal p < diagonal q ↔ p < q := Iff.rfl

theorem cross_lt_diagonal (a b p : Partition) : cross a b < diagonal p := trivial

/-- A cross task is in normalized form if its lower index stands first. -/
theorem normalized_eq_self {task : Task} :
    task.normalized = task ↔ ∀ a b, task = cross a b → a ≤ b := by
  cases task with
  | diagonal => simp [normalized]
  | cross a b =>
    constructor
    · rintro h _ _ ⟨⟩
      by_contra hba
      simp only [normalized, between, hba, if_false, cross.injEq] at h
      lia
    · intro h
      simp [normalized, between, h a b rfl]

end Task

namespace Workload

/-- Pairs are enumerated by their first index, then by their second. -/
theorem pairwise_pairsBelow (n : Nat) :
    (pairsBelow n).Pairwise fun p q => p.1 < q.1 ∨ p.1 = q.1 ∧ p.2 < q.2 := by
  unfold pairsBelow
  rw [List.pairwise_flatMap]
  constructor
  · intro first _
    rw [List.pairwise_map]
    exact List.Pairwise.imp (fun h => .inr ⟨rfl, h⟩) List.pairwise_lt_range'
  · refine List.pairwise_lt_range.imp ?_
    intro first second h p hp q hq
    obtain ⟨_, _, rfl⟩ := List.mem_map.mp hp
    obtain ⟨_, _, rfl⟩ := List.mem_map.mp hq
    exact .inl h

theorem nodup_pairsBelow (n : Nat) : (pairsBelow n).Nodup := by
  refine (pairwise_pairsBelow n).imp ?_
  rintro p q h rfl
  simp at h

/-- The rows of the first `k` indices, counted twice, fill a rectangle up to a triangle. -/
theorem two_mul_sum_rows {n k : Nat} (h : k ≤ n) :
    2 * ((List.range k).map fun first => n - (first + 1)).sum + k * (k + 1) = 2 * (k * n) := by
  induction k with
  | zero => simp
  | succ k ih =>
    have rows := ih (by omega)
    have square : (k + 1) * (k + 1 + 1) = k * (k + 1) + 2 * (k + 1) := by ring
    have rectangle : (k + 1) * n = k * n + n := by ring
    rw [List.range_succ, List.map_append, List.sum_append, square, rectangle]
    simp only [List.map_cons, List.map_nil, List.sum_cons, List.sum_nil]
    omega

theorem two_mul_length_pairsBelow (n : Nat) :
    2 * (pairsBelow n).length + n * (n + 1) = 2 * (n * n) := by
  have length : (pairsBelow n).length = ((List.range n).map fun first => n - (first + 1)).sum := by
    simp [pairsBelow, List.length_flatMap]
  rw [length]
  exact two_mul_sum_rows (Nat.le_refl n)

variable (workload : Workload)

@[simp]
theorem length_pairs : workload.pairs.length = workload.partitions * (workload.partitions - 1) / 2 := by
  have count := two_mul_length_pairsBelow workload.partitions
  have pos := workload.pos
  obtain ⟨k, hk⟩ : ∃ k, workload.partitions = k + 1 := ⟨workload.partitions - 1, by omega⟩
  have square : (k + 1) * (k + 1 + 1) = (k + 1) * k + 2 * (k + 1) := by ring
  have twice : 2 * ((k + 1) * (k + 1)) = 2 * ((k + 1) * k) + 2 * (k + 1) := by ring
  rw [hk] at count
  rw [pairs, hk, Nat.add_sub_cancel]
  omega

theorem size_eq_add :
    workload.size = workload.partitions * (workload.partitions - 1) / 2 + workload.partitions := by
  rw [← length_pairs]
  simp only [size, cross, diagonal, List.length_map, List.length_range]

/-- A workload has `n (n + 1) / 2` tasks. -/
theorem size_eq : workload.size = workload.partitions * (workload.partitions + 1) / 2 := by
  have count := two_mul_length_pairsBelow workload.partitions
  have square : workload.partitions * (workload.partitions + 1) =
      workload.partitions * workload.partitions + workload.partitions := by ring
  simp only [size, cross, diagonal, pairs, List.length_map, List.length_range]
  rw [square] at count ⊢
  omega

/-- Tasks are enumerated in strictly ascending order. -/
theorem pairwise_tasks : workload.tasks.Pairwise (· < ·) := by
  unfold tasks cross diagonal
  rw [List.pairwise_append, List.pairwise_map, List.pairwise_map]
  refine ⟨?_, ?_, ?_⟩
  · simp only [Task.cross_lt_cross]
    exact pairwise_pairsBelow workload.partitions
  · simpa only [Task.diagonal_lt_diagonal] using List.pairwise_lt_range
  · intro s hs t ht
    obtain ⟨_, _, rfl⟩ := List.mem_map.mp hs
    obtain ⟨_, _, rfl⟩ := List.mem_map.mp ht
    exact Task.cross_lt_diagonal ..

theorem nodup_tasks : workload.tasks.Nodup := by
  refine workload.pairwise_tasks.imp ?_
  rintro s t h rfl
  exact Task.lt_irrefl s h

@[simp]
theorem cross_mem_tasks {a b : Partition} :
    .cross a b ∈ workload.tasks ↔ a < b ∧ b < workload.partitions := by
  simp [tasks, cross, diagonal, pairs]

@[simp]
theorem diagonal_mem_tasks {p : Partition} :
    .diagonal p ∈ workload.tasks ↔ p < workload.partitions := by
  simp [tasks, cross, diagonal]

/-- Membership by comparing indices agrees with the enumeration. -/
theorem normalized_mem_tasks {task : Task} :
    task.normalized ∈ workload.tasks ↔ workload.Contains task := by
  cases task with
  | diagonal p => simp [Contains, Task.normalized]
  | cross a b =>
    by_cases h : a ≤ b
    · simp only [Contains, Task.normalized, Task.between, h, if_true, cross_mem_tasks]
      lia
    · simp only [Contains, Task.normalized, Task.between, h, if_false, cross_mem_tasks]
      lia

/-- The enumeration lists tasks in normalized form. -/
theorem normalized_eq_of_mem_tasks {task : Task} (h : task ∈ workload.tasks) :
    task.normalized = task := by
  rw [Task.normalized_eq_self]
  rintro a b rfl
  exact Nat.le_of_lt ((workload.cross_mem_tasks).mp h).1

theorem contains_of_mem_tasks {task : Task} (h : task ∈ workload.tasks) :
    workload.Contains task := by
  rw [← normalized_mem_tasks, workload.normalized_eq_of_mem_tasks h]
  exact h

/-- The cross tasks are the tasks of two partitions among all of them. -/
theorem filter_tasks_eq_cross : (workload.tasks.filter fun task => !task.isDiagonal) = workload.cross := by
  have all : workload.cross.filter (fun task => !task.isDiagonal) = workload.cross := by
    rw [List.filter_eq_self, cross, List.forall_mem_map]
    exact fun _ _ => rfl
  have none : workload.diagonal.filter (fun task => !task.isDiagonal) = [] := by
    rw [List.filter_eq_nil_iff, diagonal, List.forall_mem_map]
    exact fun _ _ => nofun
  rw [tasks, List.filter_append, all, none, List.append_nil]

/-! ## Main result -/

/-- The enumeration of a workload and its membership test agree. A task with any indices belongs to the
workload if and only if its normalized form is enumerated; the enumeration ascends strictly, so that
nothing is repeated, with every cross task in front of every diagonal task; and it has as many tasks and
cross tasks as there are pairs of partitions with and without repetition. -/
theorem enumeration_decides_membership {n : Nat} (pos : 0 < n) :
    ∃ workload, ofSize n = .ok workload ∧ workload.partitions = n ∧
      (∀ task, workload.Contains task ↔ task.normalized ∈ workload.tasks) ∧
      workload.tasks.Pairwise (· < ·) ∧ workload.tasks.Nodup ∧
      (∀ first second, .cross first second ∈ workload.tasks → first < second ∧ second < n) ∧
      workload.size = n * (n + 1) / 2 ∧ workload.tasks.length = workload.size ∧
      (workload.tasks.filter fun task => !task.isDiagonal) = workload.cross ∧
      workload.cross.length = n * (n - 1) / 2 := by
  refine ⟨⟨n, pos⟩, ofSize_of_pos pos, rfl, ?membership, pairwise_tasks _, nodup_tasks _, ?ordered,
    size_eq _, length_tasks _, filter_tasks_eq_cross _, ?count⟩
  case membership => exact fun task => (normalized_mem_tasks _).symm
  case ordered => exact fun first second => (cross_mem_tasks _).mp
  case count =>
    rw [cross, List.length_map]
    exact length_pairs _

/-- Three partitions have six tasks, of which three are cross tasks. -/
theorem three_partitions_enumeration :
    0 < 3 ∧ ∃ workload, ofSize 3 = .ok workload ∧ workload.tasks.Pairwise (· < ·) ∧
      (workload.Contains (.cross 2 0) ↔ .cross 0 2 ∈ workload.tasks) ∧ workload.size = 6 ∧
      workload.cross.length = 3 := by
  obtain ⟨workload, built, -, membership, ascending, -, -, size, -, -, count⟩ :=
    enumeration_decides_membership (n := 3) (by decide)
  exact ⟨by decide, workload, built, ascending, membership (.cross 2 0), size, count⟩

end Workload
end AllPairs
