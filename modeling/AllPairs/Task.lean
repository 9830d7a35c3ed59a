import AllPairs.Text.Dump

/-!
The units of comparison work. A task compares two partitions with each other or one partition
with itself. A cross task is identified by the set of its two partitions, so a task has one
normalized form, with the lower index first; other forms are still values that can be written,
read and judged.
-/

namespace AllPairs

/-- The index of a data partition. -/
abbrev Partition := Nat

/-- A unit of comparison work over one or two partitions. -/
inductive Task where
  /-- Comparison of two partitions. -/
  | cross (first second : Partition)
  /-- Comparison of a partition with itself. -/
  | diagonal (partition : Partition)
deriving DecidableEq

namespace Task

/-- The cross task of two partitions, lower index first. -/
def between (first second : Partition) : Task :=
  if first ≤ second then cross first second else cross second first

/-- The same work with the indices of a cross task in ascending order. -/
def normalized : Task → Task
  | cross first second => between first second
  | diagonal partition => diagonal partition

/-- A diagonal task compares a partition with itself. -/
def isDiagonal : Task → Bool
  | cross _ _ => false
  | diagonal _ => true

/-- The partitions that a task reads, in the order in which they are written. -/
def partitions : Task → List Partition
  | cross first second => [first, second]
  | diagonal partition => [partition]

/-- The cross task with its indices exchanged; a diagonal task has only one form. -/
def flipped : Task → Task
  | cross first second => cross second first
  | diagonal partition => diagonal partition

/-- Cross tasks come before diagonal tasks; within a kind the indices decide, the first one first. -/
protected def lt : Task → Task → Prop
  | cross a b, cross c d => a < c ∨ a = c ∧ b < d
  | cross _ _, diagonal _ => True
  | diagonal _, cross _ _ => False
  | diagonal p, diagonal q => p < q

instance : LT Task := ⟨Task.lt⟩

instance : LE Task := ⟨fun s t => ¬ t < s⟩

instance decidableLt : (s t : Task) → Decidable (s < t)
  | cross a b, cross c d => inferInstanceAs (Decidable (a < c ∨ a = c ∧ b < d))
  | cross _ _, diagonal _ => .isTrue trivial
  | diagonal _, cross _ _ => .isFalse id
  | diagonal p, diagonal q => inferInstanceAs (Decidable (p < q))

instance decidableLe (s t : Task) : Decidable (s ≤ t) :=
  inferInstanceAs (Decidable (¬ t < s))

/-- Tasks in ascending order, repetitions kept. -/
def sort (tasks : List Task) : List Task :=
  tasks.mergeSort (fun s t => decide (s ≤ t))

/-- The text of a task. -/
def text : Task → String
  | cross first second => "cross(" ++ toString first ++ ", " ++ toString second ++ ")"
  | diagonal partition => "diagonal(" ++ toString partition ++ ")"

/-- The structural text of a task. -/
def dump : Task → String
  | cross first second => Dump.applied "Cross" [toString first, toString second]
  | diagonal partition => Dump.applied "Diagonal" [toString partition]

theorem between_comm (a b : Partition) : between a b = between b a := by
  unfold between
  split <;> split <;> grind

@[simp]
theorem normalized_between (a b : Partition) : (between a b).normalized = between a b := by
  by_cases h : a ≤ b
  · simp [between, normalized, h]
  · simp [between, normalized, h, Nat.le_of_not_le h]

@[simp]
theorem normalized_normalized (task : Task) : task.normalized.normalized = task.normalized := by
  cases task with
  | cross a b => exact normalized_between a b
  | diagonal => rfl

@[simp]
theorem normalized_flipped (task : Task) : task.flipped.normalized = task.normalized := by
  cases task <;> simp [normalized, flipped, between_comm]

theorem partitions_normalized_perm (task : Task) :
    task.normalized.partitions.Perm task.partitions := by
  cases task with
  | diagonal => exact .refl _
  | cross a b =>
    simp only [normalized, between]
    split
    · exact .refl _
    · exact .swap a b []

@[simp]
theorem mem_partitions_normalized {task : Task} {p : Partition} :
    p ∈ task.normalized.partitions ↔ p ∈ task.partitions :=
  (partitions_normalized_perm task).mem_iff

end Task
end AllPairs
