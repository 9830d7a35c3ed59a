import AllPairs.Proofs.Disjointness
import AllPairs.Proofs.Enumeration
import AllPairs.Schedule.Violation

/-!
# Exact covers

A schedule covers a workload exactly if no batch is empty, no partition occurs in two tasks of a
batch, no cross task joins a partition with itself, and the tasks of all batches, normalized, are a
rearrangement of the enumeration. The validator scans the schedule once, with one set for the
batch at hand and one for the schedule; it succeeds exactly on the exact covers.
-/

namespace AllPairs

/-- The schedule performs every task of the workload exactly once, in disjoint batches of which
none is empty. -/
structure ExactCover (workload : Workload) (schedule : Schedule) : Prop where
  nonempty : ∀ batch ∈ schedule.batches, batch.tasks ≠ []
  apart : ∀ batch ∈ schedule.batches, batch.tasks.Pairwise Task.Apart
  proper : ∀ batch ∈ schedule.batches, ∀ task ∈ batch.tasks, task.Proper
  perm : (schedule.tasks.map Task.normalized).Perm workload.tasks

namespace IndexSet

@[simp]
theorem insertEach_nil (set : IndexSet) : set.insertEach [] = set := rfl

theorem insertEach_cons (set : IndexSet) (index : Nat) (indices : List Nat) :
    set.insertEach (index :: indices) = (set.insert index).insertEach indices := rfl

theorem insertEach_append (set : IndexSet) (left right : List Nat) :
    set.insertEach (left ++ right) = (set.insertEach left).insertEach right :=
  List.foldl_append

end IndexSet

namespace Workload

variable (workload : Workload)

/-- The cell that the validator marks for a task. -/
def place (task : Task) : Nat :=
  workload.cell task.normalized

theorem place_eq_place {s t : Task} (hs : workload.Contains s) (ht : workload.Contains t) :
    workload.place s = workload.place t ↔ s.normalized = t.normalized :=
  workload.cell_inj hs ht

theorem proper_of_contains {task : Task} (h : workload.Contains task) : task.Proper := by
  cases task with
  | diagonal => trivial
  | cross a b =>
    rintro rfl
    simp [Contains, Task.normalized, Task.between] at h

theorem lt_of_contains {task : Task} (h : workload.Contains task) {p : Partition}
    (hp : p ∈ task.partitions) : p < workload.partitions := by
  rw [← workload.normalized_mem_tasks] at h
  rw [← Task.mem_partitions_normalized] at hp
  cases hn : task.normalized with
  | diagonal q =>
    rw [hn, diagonal_mem_tasks] at h
    rw [hn, Task.partitions, List.mem_singleton] at hp
    lia
  | cross a b =>
    rw [hn, cross_mem_tasks] at h
    rw [hn, Task.partitions, List.mem_pair] at hp
    lia

/-- A task of the enumeration is marked if it is the normalized form of one of the tasks whose places
were inserted. -/
theorem marked_iff {tasks : List Task} (contained : ∀ task ∈ tasks, workload.Contains task)
    {task : Task} (mem : task ∈ workload.tasks) :
    workload.cell task ∈ IndexSet.empty.insertEach (tasks.map workload.place) ↔
      task ∈ tasks.map Task.normalized := by
  have inside := workload.contains_of_mem_tasks mem
  have cell : workload.cell task = workload.place task := by
    rw [place, workload.normalized_eq_of_mem_tasks mem]
  rw [IndexSet.mem_insertEach, cell]
  simp only [IndexSet.not_mem_empty, or_false, List.mem_map]
  refine exists_congr fun written => and_congr_right fun hw => ?_
  rw [workload.place_eq_place (contained written hw) inside,
    workload.normalized_eq_of_mem_tasks mem]

end Workload

namespace ExactCover

variable {workload : Workload} {schedule : Schedule}

theorem contains (cover : ExactCover workload schedule) {task : Task}
    (mem : task ∈ schedule.tasks) : workload.Contains task :=
  workload.normalized_mem_tasks.mp (cover.perm.mem_iff.mp (List.mem_map_of_mem mem))

theorem disjoint (cover : ExactCover workload schedule) : schedule.Disjoint :=
  fun batch hb => Batch.disjoint_iff.mpr ⟨cover.proper batch hb, cover.apart batch hb⟩

theorem taskCount_eq (cover : ExactCover workload schedule) :
    schedule.taskCount = workload.size := by
  rw [← workload.length_tasks, ← cover.perm.length_eq, List.length_map, Schedule.taskCount]

theorem size_le (cover : ExactCover workload schedule) {batch : Batch}
    (hb : batch ∈ schedule.batches) : batch.size ≤ workload.partitions :=
  (cover.disjoint batch hb).size_le fun _ ht _ hp =>
    workload.lt_of_contains (cover.contains (List.mem_flatMap.mpr ⟨batch, hb, ht⟩)) hp

end ExactCover

namespace Schedule

variable {workload : Workload}

/-- The scan of a batch succeeds if its tasks belong to the workload, share no partition with each
other or with the active ones, and were not scheduled before. -/
theorem scanTasks_eq_ok_iff {index : Nat} {active scheduled found : IndexSet} {tasks : List Task} :
    scanTasks workload index active scheduled tasks = .ok found ↔
      (∀ task ∈ tasks, workload.Contains task ∧ workload.place task ∉ scheduled ∧
        ∀ p ∈ task.partitions, p ∉ active) ∧
      tasks.Pairwise Task.Apart ∧
      found = scheduled.insertEach (tasks.map workload.place) := by
  induction tasks generalizing active scheduled with
  | nil => simp [scanTasks, eq_comm]
  | cons task tasks ih =>
    simp only [scanTasks, Workload.contains_normalized, List.forall_mem_cons, List.pairwise_cons,
      List.map_cons, IndexSet.insertEach_cons]
    by_cases contained : workload.Contains task
    swap
    · simp [contained]
    rw [if_pos contained]
    cases search : task.normalized.partitions.find? (· ∈ active) with
    | some p =>
      have used := List.find?_some search
      have mem := List.mem_of_find?_eq_some search
      rw [Task.mem_partitions_normalized] at mem
      simp only [decide_eq_true_eq] at used
      simp only [reduceCtorEq, false_iff]
      exact fun h => h.1.1.2.2 p mem used
    | none =>
      have free : ∀ p ∈ task.partitions, p ∉ active := by
        intro p mem
        rw [← Task.mem_partitions_normalized] at mem
        simpa using List.find?_eq_none.mp search p mem
      change (if workload.place task ∈ scheduled then _ else _) = _ ↔ _
      by_cases seen : workload.place task ∈ scheduled
      · simp [seen]
      rw [if_neg seen]
      change scanTasks workload index _ (scheduled.insert (workload.place task)) tasks = _ ↔ _
      rw [ih]
      -- Tasks after this one are apart from it, so that their places differ from its place.
      constructor
      · rintro ⟨rest, apart, rfl⟩
        refine ⟨⟨⟨contained, seen, free⟩, ?_⟩, ⟨?_, apart⟩, rfl⟩
        · intro other mem
          obtain ⟨inside, fresh, unused⟩ := rest other mem
          rw [IndexSet.mem_insert, not_or] at fresh
          refine ⟨inside, fresh.2, fun p hp active => unused p hp ?_⟩
          exact IndexSet.mem_insertEach.mpr (.inr active)
        · intro other mem p hp hother
          refine (rest other mem).2.2 p hother ?_
          exact IndexSet.mem_insertEach.mpr (.inl (Task.mem_partitions_normalized.mpr hp))
      · rintro ⟨⟨-, rest⟩, ⟨first, apart⟩, rfl⟩
        refine ⟨?_, apart, rfl⟩
        intro other mem
        obtain ⟨inside, fresh, unused⟩ := rest other mem
        refine ⟨inside, ?_, ?_⟩
        · rw [IndexSet.mem_insert, workload.place_eq_place inside contained, not_or]
          exact ⟨(first other mem).symm.normalized_ne, fresh⟩
        · intro p hp
          rw [IndexSet.mem_insertEach, Task.mem_partitions_normalized, not_or]
          exact ⟨(first other mem).symm p hp, unused p hp⟩

/-- The scan of all batches succeeds if none is empty, each one is clean by itself, and no task is
scheduled twice. -/
theorem scanBatches_eq_ok_iff {index : Nat} {scheduled found : IndexSet} {batches : List Batch} :
    scanBatches workload index scheduled batches = .ok found ↔
      (∀ batch ∈ batches, batch.tasks ≠ [] ∧ batch.tasks.Pairwise Task.Apart) ∧
      (∀ task ∈ batches.flatMap Batch.tasks,
        workload.Contains task ∧ workload.place task ∉ scheduled) ∧
      (batches.flatMap Batch.tasks).Pairwise (fun s t => s.normalized ≠ t.normalized) ∧
      found = scheduled.insertEach ((batches.flatMap Batch.tasks).map workload.place) := by
  induction batches generalizing index scheduled with
  | nil => simp [scanBatches, eq_comm]
  | cons batch batches ih =>
    simp only [scanBatches, List.flatMap_cons, List.forall_mem_cons, List.forall_mem_append,
      List.pairwise_append, List.map_append, IndexSet.insertEach_append]
    by_cases empty : batch.tasks = []
    · simp [Batch.isEmpty, empty]
    rw [if_neg (by simpa [Batch.isEmpty] using empty)]
    cases scan : scanTasks workload index .empty scheduled batch.tasks with
    | error violation =>
      simp only [bind, Except.bind, reduceCtorEq, false_iff]
      rintro ⟨⟨⟨-, apart⟩, -⟩, ⟨clean, -⟩, -⟩
      have success : scanTasks workload index .empty scheduled batch.tasks =
          .ok (scheduled.insertEach (batch.tasks.map workload.place)) :=
        scanTasks_eq_ok_iff.mpr
          ⟨fun task mem => ⟨(clean task mem).1, (clean task mem).2, by simp⟩, apart, rfl⟩
      rw [scan] at success
      cases success
    | ok marked =>
      obtain ⟨clean, apart, rfl⟩ := scanTasks_eq_ok_iff.mp scan
      simp only [bind, Except.bind]
      rw [ih]
      have distinct : batch.tasks.Pairwise fun s t => s.normalized ≠ t.normalized :=
        apart.imp Task.Apart.normalized_ne
      constructor
      · rintro ⟨others, fresh, apartOthers, rfl⟩
        refine ⟨⟨⟨empty, apart⟩, others⟩, ⟨fun task mem => ?_, fun task mem => ?_⟩,
          ⟨distinct, apartOthers, ?_⟩, rfl⟩
        · exact ⟨(clean task mem).1, (clean task mem).2.1⟩
        · have := (fresh task mem).2
          rw [IndexSet.mem_insertEach, not_or] at this
          exact ⟨(fresh task mem).1, this.2⟩
        · intro s hs t ht same
          refine (fresh t ht).2 (IndexSet.mem_insertEach.mpr (.inl ?_))
          rw [← (workload.place_eq_place (clean s hs).1 (fresh t ht).1).mpr same]
          exact List.mem_map_of_mem hs
      · rintro ⟨⟨-, others⟩, ⟨-, fresh⟩, ⟨-, apartOthers, cross⟩, rfl⟩
        refine ⟨others, fun task mem => ⟨(fresh task mem).1, ?_⟩, apartOthers, rfl⟩
        rw [IndexSet.mem_insertEach, not_or]
        refine ⟨fun marked => ?_, (fresh task mem).2⟩
        obtain ⟨s, hs, same⟩ := List.mem_map.mp marked
        exact cross s hs task mem
          ((workload.place_eq_place (clean s hs).1 (fresh task mem).1).mp same)

/-- The validator succeeds if the scan does and marks every task of the workload. -/
theorem validate_eq_ok_iff_scan {schedule : Schedule} :
    schedule.validate workload = .ok () ↔
      ∃ found, scanBatches workload 0 .empty schedule.batches = .ok found ∧
        ∀ task ∈ workload.tasks, workload.cell task ∈ found := by
  unfold validate
  cases scanBatches workload 0 .empty schedule.batches with
  | error violation => simp [bind, Except.bind]
  | ok found =>
    simp only [bind, Except.bind, Except.ok.injEq, exists_eq_left']
    cases search : workload.tasks.find? (workload.cell · ∉ found) with
    | none => simpa using search
    | some task =>
      have missing := List.find?_some search
      have mem := List.mem_of_find?_eq_some search
      simp only [reduceCtorEq, false_iff]
      intro all
      simp [all task mem] at missing

/-- Accepted schedules are the exact covers. -/
theorem validate_eq_ok_iff {schedule : Schedule} :
    schedule.validate workload = .ok () ↔ ExactCover workload schedule := by
  rw [validate_eq_ok_iff_scan]
  simp only [scanBatches_eq_ok_iff, IndexSet.not_mem_empty, not_false_eq_true, and_true]
  constructor
  · rintro ⟨_, ⟨batches, contained, distinct, rfl⟩, complete⟩
    have proper : ∀ batch ∈ schedule.batches, ∀ task ∈ batch.tasks, task.Proper := by
      intro batch hb task ht
      exact workload.proper_of_contains (contained task (List.mem_flatMap.mpr ⟨batch, hb, ht⟩))
    have unique : (schedule.tasks.map Task.normalized).Nodup := List.pairwise_map.mpr distinct
    refine ⟨fun batch hb => (batches batch hb).1, fun batch hb => (batches batch hb).2, proper, ?_⟩
    rw [List.perm_ext_iff_of_nodup unique workload.nodup_tasks]
    intro task
    constructor
    · intro mem
      obtain ⟨written, hw, rfl⟩ := List.mem_map.mp mem
      exact workload.normalized_mem_tasks.mpr (contained written hw)
    · intro mem
      exact (workload.marked_iff contained mem).mp (complete task mem)
  · intro cover
    have unique := cover.perm.nodup_iff.mpr workload.nodup_tasks
    refine ⟨_, ⟨fun batch hb => ⟨cover.nonempty batch hb, cover.apart batch hb⟩,
      fun task mem => cover.contains mem, List.pairwise_map.mp unique, rfl⟩, ?_⟩
    intro task mem
    exact (workload.marked_iff (fun _ => cover.contains) mem).mpr (cover.perm.mem_iff.mpr mem)

theorem maxWidth_le_iff {schedule : Schedule} {bound : Nat} :
    schedule.maxWidth ≤ bound ↔ ∀ batch ∈ schedule.batches, batch.size ≤ bound := by
  unfold maxWidth
  induction schedule.batches with
  | nil => simp
  | cons batch batches ih => simp [ih]

/-- The validator decides exact cover, whatever number of partitions the schedule states. What it
accepts is disjoint, has as many tasks as the workload, and no batch of it is wider than the number
of partitions. -/
theorem validate_decides_exactCover (workload : Workload) (schedule : Schedule) :
    (schedule.validate workload = .ok () ↔ ExactCover workload schedule) ∧
    (schedule.validate workload = .ok () →
      schedule.Disjoint ∧
      schedule.taskCount = workload.partitions * (workload.partitions + 1) / 2 ∧
      schedule.maxWidth ≤ workload.partitions) := by
  refine ⟨validate_eq_ok_iff, fun accepted => ?_⟩
  have cover := validate_eq_ok_iff.mp accepted
  refine ⟨cover.disjoint, ?_, ?_⟩
  · rw [cover.taskCount_eq, workload.size_eq]
  · exact maxWidth_le_iff.mpr fun batch hb => cover.size_le hb

end Schedule
end AllPairs
