import AllPairs.Task

/-!
The work that a number of partitions requires: every unordered pair of distinct partitions once,
and every partition with itself once. Enumeration goes through the cross tasks in ascending order
and then through the diagonal tasks; planners rely on that order to be reproducible. Membership
is decided by comparing indices, without enumerating.
-/

namespace AllPairs

/-- There is no workload over this many partitions. -/
structure InvalidSize where
  partitions : Nat
deriving DecidableEq

/-- What is wrong with the number of partitions. -/
def InvalidSize.message (error : InvalidSize) : String :=
  "at least one partition is required, got " ++ toString error.partitions

/-- All the work over a positive number of partitions. -/
structure Workload where
  partitions : Nat
  pos : 0 < partitions

namespace Workload

/-- The workload over a number of partitions, which must not be zero. -/
def ofSize (partitions : Nat) : Except InvalidSize Workload :=
  if pos : 0 < partitions then .ok ⟨partitions, pos⟩ else .error ⟨partitions⟩

/-- Every pair of distinct indices below a bound, lower index first, in ascending order. -/
def pairsBelow (bound : Nat) : List (Partition × Partition) :=
  (List.range bound).flatMap fun first =>
    (List.range' (first + 1) (bound - (first + 1))).map fun second => (first, second)

variable (workload : Workload)

/-- The pairs of distinct partitions. -/
def pairs : List (Partition × Partition) :=
  pairsBelow workload.partitions

/-- The cross tasks in enumeration order. -/
def cross : List Task :=
  workload.pairs.map fun pair => .cross pair.1 pair.2

/-- The diagonal tasks in ascending order. -/
def diagonal : List Task :=
  (List.range workload.partitions).map .diagonal

/-- Every task of the workload, cross tasks first. -/
def tasks : List Task :=
  workload.cross ++ workload.diagonal

/-- The number of tasks. -/
def size : Nat :=
  workload.cross.length + workload.diagonal.length

/-- A workload is never empty, since it has at least one diagonal task. -/
def isEmpty : Bool :=
  workload.size == 0

/-- A task belongs to the workload if its normalized form joins two distinct partitions of it, or
compares one of its partitions with itself. -/
def Contains (task : Task) : Prop :=
  match task.normalized with
  | .cross first second => first ≠ second ∧ second < workload.partitions
  | .diagonal partition => partition < workload.partitions

/-- The place of a task in the square of all pairs of partitions, counted row by row. Diagonal tasks
stand on the diagonal. -/
def cell : Task → Nat
  | .cross first second => first * workload.partitions + second
  | .diagonal partition => partition * workload.partitions + partition

instance (task : Task) : Decidable (workload.Contains task) := by
  unfold Contains
  split <;> infer_instance

theorem ofSize_of_pos {n : Nat} (pos : 0 < n) : ofSize n = .ok ⟨n, pos⟩ := by
  simp [ofSize, pos]

@[simp]
theorem ofSize_partitions : ofSize workload.partitions = .ok workload := by
  simp [ofSize, workload.pos]

@[simp]
theorem contains_normalized {task : Task} :
    workload.Contains task.normalized ↔ workload.Contains task := by
  simp [Contains]

@[simp]
theorem length_tasks : workload.tasks.length = workload.size := by
  simp [tasks, size]

@[simp]
theorem mem_pairsBelow {n a b : Nat} : (a, b) ∈ pairsBelow n ↔ a < b ∧ b < n := by
  simp only [pairsBelow, List.mem_flatMap, List.mem_range, List.mem_map, List.mem_range'_1,
    Prod.mk.injEq]
  constructor
  · rintro ⟨i, _, j, _, rfl, rfl⟩
    omega
  · intro h
    exact ⟨a, by omega, b, by omega, rfl, rfl⟩

/-- Two numbers below a base are the digits of at most one number. -/
theorem mul_add_inj {n a b c d : Nat} (hb : b < n) (hd : d < n) :
    a * n + b = c * n + d ↔ a = c ∧ b = d := by
  constructor
  · intro h
    have quotient : (a * n + b) / n = (c * n + d) / n := by rw [h]
    have remainder : (a * n + b) % n = (c * n + d) % n := by rw [h]
    have pos : 0 < n := by omega
    rw [Nat.mul_comm a, Nat.mul_comm c, Nat.mul_add_div pos, Nat.mul_add_div pos,
      Nat.div_eq_of_lt hb, Nat.div_eq_of_lt hd] at quotient
    rw [Nat.mul_comm a, Nat.mul_comm c, Nat.mul_add_mod, Nat.mul_add_mod,
      Nat.mod_eq_of_lt hb, Nat.mod_eq_of_lt hd] at remainder
    exact ⟨quotient, remainder⟩
  · rintro ⟨rfl, rfl⟩
    rfl

/-- Different tasks of a workload have different places. -/
theorem cell_inj {s t : Task} (hs : workload.Contains s) (ht : workload.Contains t) :
    workload.cell s.normalized = workload.cell t.normalized ↔ s.normalized = t.normalized := by
  simp only [Contains] at hs ht
  cases hsn : s.normalized <;> cases htn : t.normalized <;> rw [hsn] at hs <;> rw [htn] at ht <;>
    simp only [cell, Task.cross.injEq, Task.diagonal.injEq, reduceCtorEq, iff_false]
  · exact mul_add_inj hs.2 ht.2
  · rw [mul_add_inj hs.2 ht]
    rintro ⟨rfl, rfl⟩
    exact hs.1 rfl
  · rw [mul_add_inj hs ht.2]
    rintro ⟨rfl, rfl⟩
    exact ht.1 rfl
  · rw [mul_add_inj hs ht]
    exact and_self_iff

end Workload
end AllPairs
