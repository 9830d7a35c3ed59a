import AllPairs.Batch

/-!
Schedules: batches that run one after another, together with the number of partitions that they
were planned for.
-/

namespace AllPairs

/-- Ordered batches for a number of partitions. -/
structure Schedule where
  partitions : Nat
  batches : List Batch
deriving DecidableEq

namespace Schedule

variable (schedule : Schedule)

/-- The number of batches. -/
def size : Nat :=
  schedule.batches.length

/-- The schedule has no batches. -/
def isEmpty : Bool :=
  schedule.batches.isEmpty

/-- Every task of the schedule as written, batch by batch. -/
def tasks : List Task :=
  schedule.batches.flatMap Batch.tasks

/-- The number of tasks over all batches. -/
def taskCount : Nat :=
  schedule.tasks.length

/-- The size of the largest batch, which is the number of workers that can be kept busy; zero if
there is no batch. -/
def maxWidth : Nat :=
  (schedule.batches.map Batch.size).foldr max 0

/-- Every batch is disjoint. -/
def Disjoint : Prop :=
  ∀ batch ∈ schedule.batches, batch.Disjoint

instance : Decidable schedule.Disjoint :=
  inferInstanceAs (Decidable (∀ batch ∈ schedule.batches, batch.Disjoint))

/-- The lines of a list of batches, the first one with the given number. -/
def lines : Nat → List Batch → List String
  | _, [] => []
  | index, batch :: rest =>
    ("batch " ++ toString index ++ ": " ++ batch.text ++ "\n") :: lines (index + 1) rest

/-- One line for every batch. -/
def text : String :=
  String.join (lines 0 schedule.batches)

/-- The structural text of a schedule. -/
def dump : String :=
  Dump.record "Schedule"
    [("partitions", toString schedule.partitions),
      ("batches", Dump.list (schedule.batches.map Batch.dump))]

end Schedule
end AllPairs
