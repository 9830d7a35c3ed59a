import AllPairs.Planning.Greedy
import AllPairs.Proofs.Planning.Feasible
import Mathlib.Data.Finset.Sort
import Mathlib.Order.Interval.Finset.Nat

/-!
# Planning task by task

The greedy planner closes one batch after another, each in a sweep over all pairs that wait. The same
schedule comes out if one task after another is placed: every cross task, in the order of the
enumeration, in the first batch that takes it; then, in one visit to every batch, the lowest diagonal
task that the batch takes; and what is left of the diagonal tasks in batches of their own. Deferring
keeps the order of the queue, so the later batches see the same tasks in the same order either way, and
the diagonal tasks come too late to turn a cross task away.
-/

namespace AllPairs.TaskByTask

/-- The batch has room for the task and uses none of its partitions. -/
def Takes (width : Width) (batch : Batch) (task : Task) : Prop :=
  width.HasRoom batch.size ∧ ∀ p ∈ task.partitions, p ∉ batch.partitions

instance (width : Width) (batch : Batch) (task : Task) : Decidable (Takes width batch task) :=
  inferInstanceAs (Decidable (_ ∧ _))

/-- Appends a task to the first batch that takes it, or else opens a new batch at the end. -/
def place (width : Width) (task : Task) : List Batch → List Batch
  | [] => [Batch.empty.push task]
  | batch :: later =>
    if Takes width batch task then batch.push task :: later else batch :: place width task later

/-- Places tasks one after another. -/
def placeEach (width : Width) (batches : List Batch) (tasks : List Task) : List Batch :=
  tasks.foldl (fun batches task => place width task batches) batches

/-- Visits batches once, in order. Each one gets the lowest pending diagonal task that it takes, if
there is one. Also gives the partitions whose diagonal tasks are still pending in the end. -/
def supplement (width : Width) : List Batch → Finset Partition → List Batch × Finset Partition
  | [], pending => ([], pending)
  | batch :: later, pending =>
    let taken := pending.filter fun p => Takes width batch (.diagonal p)
    if any : taken.Nonempty then
      let (others, left) := supplement width later (pending.erase (taken.min' any))
      (batch.push (.diagonal (taken.min' any)) :: others, left)
    else
      let (others, left) := supplement width later pending
      (batch :: others, left)

/-- The schedule of a workload, task by task. -/
def plan (width : Width) (workload : Workload) : Schedule :=
  let (batches, left) :=
    supplement width (placeEach width [] workload.cross) (Finset.range workload.partitions)
  ⟨workload.partitions, batches ++ (left.sort (· ≤ ·)).map fun partition => ⟨[.diagonal partition]⟩⟩

variable {width : Width}

@[simp]
theorem takes_diagonal {batch : Batch} {p : Partition} :
    Takes width batch (.diagonal p) ↔ width.HasRoom batch.size ∧ p ∉ batch.partitions := by
  simp [Takes, Task.partitions]

/-! ## Cross tasks -/

/-- Of tasks that are placed one after another the first batch gets those that a sweep for it admits, and
the later batches see those that it defers. -/
theorem placeEach_cons {active : IndexSet} {queue : List (Partition × Partition)} {batch : Batch}
    (later : List Batch) (same : ∀ p, p ∈ active ↔ p ∈ batch.partitions) :
    placeEach width (batch :: later) (Batch.ofPairs queue).tasks =
      ⟨batch.tasks ++ (Batch.ofPairs (Greedy.sweep width active batch.size queue).admitted).tasks⟩ ::
        placeEach width later
          (Batch.ofPairs (Greedy.sweep width active batch.size queue).deferred).tasks := by
  induction queue generalizing active batch later with
  | nil => simp [placeEach, Greedy.sweep]
  | cons pair rest ih =>
    obtain ⟨first, second⟩ := pair
    have agree : width.HasRoom batch.size ∧ first ∉ active ∧ second ∉ active ↔
        Takes width batch (.cross first second) := by
      rw [same, same]
      simp [Takes, Task.partitions]
    by_cases takes : Takes width batch (.cross first second)
    · have grown : ∀ p, p ∈ (active.insert first).insert second ↔
          p ∈ (batch.push (.cross first second)).partitions := by
        intro p
        simp only [IndexSet.mem_insert, same, Batch.partitions_push, Task.partitions,
          List.mem_append, List.mem_pair]
        tauto
      have step : placeEach width (batch :: later) (Batch.ofPairs ((first, second) :: rest)).tasks =
          placeEach width (batch.push (.cross first second) :: later) (Batch.ofPairs rest).tasks := by
        simp [placeEach, place, takes]
      rw [step, ih later grown, Greedy.sweep, if_pos (agree.mpr takes), Batch.size_push]
      simp [Batch.push]
    · have step : placeEach width (batch :: later) (Batch.ofPairs ((first, second) :: rest)).tasks =
          placeEach width (batch :: place width (.cross first second) later)
            (Batch.ofPairs rest).tasks := by
        simp [placeEach, place, takes]
      rw [step, ih _ same, Greedy.sweep, if_neg (mt agree.mp takes)]
      simp [placeEach]

/-- With no batch to begin with, the first batch is the one that a sweep fills. -/
theorem placeEach_nil {queue : List (Partition × Partition)} (waiting : queue ≠ []) :
    placeEach width [] (Batch.ofPairs queue).tasks =
      Batch.ofPairs (Greedy.sweep width .empty 0 queue).admitted ::
        placeEach width [] (Batch.ofPairs (Greedy.sweep width .empty 0 queue).deferred).tasks := by
  obtain ⟨pair, rest, rfl⟩ := List.exists_cons_of_ne_nil waiting
  have same : ∀ p, p ∈ (IndexSet.empty.insert pair.1).insert pair.2 ↔
      p ∈ (Batch.empty.push (.cross pair.1 pair.2)).partitions := by
    intro p
    simp [Task.partitions, or_comm]
  rw [Greedy.sweep_empty_cons]
  exact @placeEach_cons width _ rest _ [] same

/-- The batches that the greedy planner closes are those of the tasks placed one by one, filled up
afterwards. -/
theorem closeBatches_eq_backfillEach (queue : List (Partition × Partition))
    (diagonals : List Partition) :
    Greedy.closeBatches width queue diagonals =
      Batch.backfillEach width (placeEach width [] (Batch.ofPairs queue).tasks) diagonals := by
  fun_induction Greedy.closeBatches width queue diagonals with
  | case1 => rfl
  | case2 pair rest diagonals closing others left found ih =>
    rw [placeEach_nil (List.cons_ne_nil pair rest), Batch.backfillEach_cons]
    rw [found] at ih
    exact congrArg (fun later => (closing.batch :: later.1, later.2)) ih

/-! ## Diagonal tasks -/

/-- The lowest diagonal task that a batch takes is the one that it is backfilled with. -/
theorem backfilled_of_taken {batch : Batch} {pending : List Partition}
    (sorted : pending.Pairwise (· < ·)) {taken : Finset Partition}
    (all : ∀ p, p ∈ taken ↔ p ∈ pending ∧ Takes width batch (.diagonal p)) (any : taken.Nonempty) :
    batch.backfilled width pending =
      (batch.push (.diagonal (taken.min' any)), pending.filter (· ≠ taken.min' any)) := by
  obtain ⟨mem, takes⟩ := (all _).mp (taken.min'_mem any)
  obtain ⟨room, free⟩ := takes_diagonal.mp takes
  have lowest : ∀ q ∈ pending, q < taken.min' any → q ∈ batch.partitions := by
    intro q hq less
    by_contra freeOther
    have member : q ∈ taken := (all q).mpr ⟨hq, takes_diagonal.mpr ⟨room, freeOther⟩⟩
    exact Nat.not_lt_of_le (taken.min'_le q member) less
  rw [Batch.backfilled, if_pos room, backfill_eq_some_of_lowest sorted mem free lowest]

/-- Visiting batches one after another backfills them. -/
theorem supplement_toFinset {batches : List Batch} {pending : List Partition}
    (sorted : pending.Pairwise (· < ·)) :
    supplement width batches pending.toFinset =
      ((Batch.backfillEach width batches pending).1,
        (Batch.backfillEach width batches pending).2.toFinset) := by
  induction batches generalizing pending with
  | nil => rfl
  | cons batch later ih =>
    have all : ∀ p, p ∈ pending.toFinset.filter (fun p => Takes width batch (.diagonal p)) ↔
        p ∈ pending ∧ Takes width batch (.diagonal p) := by simp
    rw [Batch.backfillEach_cons, supplement]
    generalize pending.toFinset.filter (fun p => Takes width batch (.diagonal p)) = taken at all ⊢
    by_cases any : taken.Nonempty
    · have erased : pending.toFinset.erase (taken.min' any) =
          (pending.filter (· ≠ taken.min' any)).toFinset := by
        ext q
        simp [and_comm]
      rw [backfilled_of_taken sorted all any]
      simp only [any, dite_true, erased, ih (sorted.filter _)]
    · have kept : batch.backfilled width pending = (batch, pending) := by
        obtain ⟨same, -⟩ | ⟨p, left, -, room, found⟩ := batch.backfilled_cases width pending
        · exact same
        · have taken : p ∈ taken := by
            refine (all p).mpr ⟨(backfill_perm found).mem_iff.mp List.mem_cons_self, ?_⟩
            exact takes_diagonal.mpr ⟨room, (backfill_eq_some_iff.mp found).1⟩
          exact absurd ⟨p, taken⟩ any
      rw [kept]
      simp only [any, dite_false, ih sorted]

/-- Planning in sweeps, batch by batch, and placing one task after another make the same schedule. -/
theorem greedy_eq_taskByTask (width : Width) (workload : Workload) :
    Greedy.plan width workload = plan width workload := by
  have sorted : (List.range workload.partitions).Pairwise (· < ·) := List.pairwise_lt_range
  have visited := @supplement_toFinset width (placeEach width [] workload.cross) _ sorted
  have closed : Greedy.crossPhase width workload =
      Batch.backfillEach width (placeEach width [] workload.cross) (List.range workload.partitions) :=
    closeBatches_eq_backfillEach workload.pairs (List.range workload.partitions)
  have ascending : (Batch.backfillEach width (placeEach width [] workload.cross)
      (List.range workload.partitions)).2.Pairwise (· < ·) :=
    sorted.sublist (Batch.backfillEach_sublist ..)
  have listed := (List.toFinset_sort (· ≤ ·) (ascending.imp Nat.ne_of_lt)).mpr
    (ascending.imp Nat.le_of_lt)
  rw [List.toFinset_range] at visited
  simp only [Greedy.plan, plan, closed, visited, listed]

end AllPairs.TaskByTask
