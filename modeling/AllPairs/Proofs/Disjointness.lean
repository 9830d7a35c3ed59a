import AllPairs.Batch
import Mathlib.Data.List.Nodup

/-!
# Tasks that share no partition

A batch is disjoint if no two of its tasks share a partition and no cross task joins a partition
with itself. A disjoint batch over `n` partitions holds at most `n` tasks.
-/

namespace AllPairs

namespace Task

/-- The two tasks share no partition. -/
def Apart (s t : Task) : Prop :=
  ∀ p ∈ s.partitions, p ∉ t.partitions

instance (s t : Task) : Decidable (s.Apart t) :=
  inferInstanceAs (Decidable (∀ p ∈ s.partitions, p ∉ t.partitions))

/-- The task does not join a partition with itself. -/
def Proper : Task → Prop
  | cross first second => first ≠ second
  | diagonal _ => True

theorem partitions_ne_nil (task : Task) : task.partitions ≠ [] := by
  cases task <;> simp [partitions]

theorem nodup_partitions {task : Task} : task.partitions.Nodup ↔ task.Proper := by
  cases task <;> simp [partitions, Proper]

theorem Apart.symm {s t : Task} (h : s.Apart t) : t.Apart s :=
  fun p hpt hps => h p hps hpt

theorem not_apart_self (task : Task) : ¬ task.Apart task := by
  obtain ⟨p, hp⟩ := List.exists_mem_of_ne_nil _ task.partitions_ne_nil
  exact fun h => h p hp hp

@[simp]
theorem apart_normalized_left {s t : Task} : s.normalized.Apart t ↔ s.Apart t := by
  simp [Apart]

@[simp]
theorem apart_normalized_right {s t : Task} : s.Apart t.normalized ↔ s.Apart t := by
  simp [Apart]

/-- Tasks that are apart are different work. -/
theorem Apart.normalized_ne {s t : Task} (h : s.Apart t) : s.normalized ≠ t.normalized := by
  intro same
  have clash : s.normalized.Apart s.normalized := by
    rw [apart_normalized_left, same, apart_normalized_right]
    exact h
  exact not_apart_self _ clash

end Task

namespace Batch

/-- Disjointness of a batch, task by task. -/
theorem disjoint_iff {batch : Batch} :
    batch.Disjoint ↔ (∀ task ∈ batch.tasks, task.Proper) ∧ batch.tasks.Pairwise Task.Apart := by
  unfold Disjoint partitions
  rw [List.nodup_flatMap]
  refine and_congr ?_ ?_
  · exact forall₂_congr fun task _ => Task.nodup_partitions
  · rfl

theorem Disjoint.sublist {batch other : Batch} (h : batch.Disjoint)
    (sub : other.tasks.Sublist batch.tasks) : other.Disjoint := by
  rw [disjoint_iff] at h ⊢
  exact ⟨fun task mem => h.1 task (sub.mem mem), h.2.sublist sub⟩

theorem size_le_length_partitions (batch : Batch) : batch.size ≤ batch.partitions.length := by
  obtain ⟨tasks⟩ := batch
  simp only [size, partitions]
  induction tasks with
  | nil => exact Nat.le_refl _
  | cons task tasks ih =>
    have := List.length_pos_iff.mpr task.partitions_ne_nil
    simp only [List.flatMap_cons, List.length_append, List.length_cons]
    omega

/-- A disjoint batch occupies each partition once. -/
theorem Disjoint.length_partitions_le {batch : Batch} {n : Nat} (h : batch.Disjoint)
    (below : ∀ task ∈ batch.tasks, ∀ p ∈ task.partitions, p < n) : batch.partitions.length ≤ n := by
  have bound : batch.partitions ⊆ List.range n := by
    intro p hp
    obtain ⟨task, mem, hp⟩ := List.mem_flatMap.mp hp
    exact List.mem_range.mpr (below task mem p hp)
  calc batch.partitions.length ≤ (List.range n).length := h.length_le_of_subset bound
    _ = n := List.length_range

/-- Every task of a disjoint batch needs a partition of its own. -/
theorem Disjoint.size_le {batch : Batch} {n : Nat} (h : batch.Disjoint)
    (below : ∀ task ∈ batch.tasks, ∀ p ∈ task.partitions, p < n) : batch.size ≤ n :=
  Nat.le_trans batch.size_le_length_partitions (h.length_partitions_le below)

end Batch
end AllPairs
