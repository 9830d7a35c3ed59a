import AllPairs.Proofs.ExactCover
import Mathlib.Data.List.Flatten
import Mathlib.Data.List.Induction
import Mathlib.Data.Nat.Find

/-!
# The first violation

The validator reads a schedule batch by batch and task by task, and stops at the first place where what
it has read so far is not clean. An empty batch is found before its tasks are looked at. Of a task it is
asked first whether it belongs to the workload, then whether the batch already uses one of its
partitions, and then whether an earlier batch has it. What is missing is only looked for when everything
is clean. A rejected schedule has exactly one first violation in this sense, and it is the one that is
reported.
-/

namespace AllPairs

/-- The tasks of some batches, in normalized form. -/
def workOf (batches : List Batch) : List Task :=
  (batches.flatMap Batch.tasks).map Task.normalized

@[simp]
theorem workOf_append (first second : List Batch) :
    workOf (first ++ second) = workOf first ++ workOf second := by
  simp [workOf]

@[simp]
theorem workOf_cons (batch : Batch) (batches : List Batch) :
    workOf (batch :: batches) = batch.tasks.map Task.normalized ++ workOf batches := by
  simp [workOf]

@[simp]
theorem workOf_nil : workOf [] = [] := rfl

/-! ## What is clean -/

/-- No batch is empty, every task belongs to the workload, no partition occurs in two tasks of a batch,
and no task was scheduled before. -/
structure CleanBatches (workload : Workload) (batches : List Batch) : Prop where
  nonempty : ∀ batch ∈ batches, batch.tasks ≠ []
  contains : ∀ task ∈ batches.flatMap Batch.tasks, workload.Contains task
  apart : ∀ batch ∈ batches, batch.tasks.Pairwise Task.Apart
  nodup : (workOf batches).Nodup

/-- The first tasks of the batch that follows the batches `earlier`: every one of them belongs to the
workload, no partition occurs in two of them, and none was scheduled before. -/
structure CleanTasks (workload : Workload) (earlier : List Batch) (tasks : List Task) : Prop where
  contains : ∀ task ∈ tasks, workload.Contains task
  apart : tasks.Pairwise Task.Apart
  fresh : ∀ task ∈ tasks, task.normalized ∉ workOf earlier

/-- What is wrong with a task of the batch that follows the batches `earlier`, behind the tasks `before`
of its own batch. A task outside the workload is nothing else, and one that overlaps is no duplicate. -/
inductive Blames (workload : Workload) (earlier : List Batch) (before : List Task) (task : Task) :
    Violation → Prop where
  | foreign (outside : ¬ workload.Contains task) :
      Blames workload earlier before task (.foreign earlier.length task.normalized)
  | overlap {p : Partition} (inside : workload.Contains task) (mem : p ∈ task.partitions)
      (used : p ∈ before.flatMap Task.partitions)
      (lowest : ∀ q ∈ task.partitions, q ∈ before.flatMap Task.partitions → p ≤ q) :
      Blames workload earlier before task (.overlap earlier.length p)
  | duplicate (inside : workload.Contains task)
      (free : ∀ p ∈ task.partitions, p ∉ before.flatMap Task.partitions)
      (again : task.normalized ∈ workOf earlier) :
      Blames workload earlier before task (.duplicate task.normalized)

/-- The first task in enumeration order with a property. -/
def Workload.First (workload : Workload) (property : Task → Prop) (task : Task) : Prop :=
  property task ∧ ∃ before after, workload.tasks = before ++ task :: after ∧
    ∀ other ∈ before, ¬ property other

/-- The first violation of a schedule with these batches. -/
inductive FirstViolation (workload : Workload) (batches : List Batch) : Violation → Prop where
  /-- A batch is empty, and everything before it is clean. -/
  | emptyBatch {earlier later : List Batch} (split : batches = earlier ++ .empty :: later)
      (clean : CleanBatches workload earlier) :
      FirstViolation workload batches (.emptyBatch earlier.length)
  /-- Something is wrong with a task, and everything before it is clean. -/
  | atTask {earlier later : List Batch} {before after : List Task} {task : Task}
      {violation : Violation}
      (split : batches = earlier ++ ⟨before ++ task :: after⟩ :: later)
      (clean : CleanBatches workload earlier) (start : CleanTasks workload earlier before)
      (blames : Blames workload earlier before task violation) :
      FirstViolation workload batches violation
  /-- Everything is clean, and no batch has the task. -/
  | missing {task : Task} (clean : CleanBatches workload batches)
      (first : workload.First (· ∉ workOf batches) task) :
      FirstViolation workload batches (.missing task)

variable {workload : Workload}

theorem cleanBatches_nil : CleanBatches workload [] where
  nonempty := by simp
  contains := by simp
  apart := by simp
  nodup := List.nodup_nil

theorem cleanTasks_nil (earlier : List Batch) : CleanTasks workload earlier [] where
  contains := by simp
  apart := .nil
  fresh := by simp

theorem CleanBatches.sublist {batches fewer : List Batch} (h : CleanBatches workload batches)
    (sub : fewer.Sublist batches) : CleanBatches workload fewer where
  nonempty batch mem := h.nonempty batch (sub.mem mem)
  contains task mem := h.contains task ((sub.flatMap Batch.tasks).mem mem)
  apart batch mem := h.apart batch (sub.mem mem)
  nodup := h.nodup.sublist ((sub.flatMap Batch.tasks).map Task.normalized)

theorem CleanTasks.nodup {earlier : List Batch} {tasks : List Task}
    (h : CleanTasks workload earlier tasks) : (tasks.map Task.normalized).Nodup :=
  List.pairwise_map.mpr (h.apart.imp Task.Apart.normalized_ne)

/-- A batch behind clean ones is clean if it is not empty and its tasks are. -/
theorem cleanBatches_concat {earlier : List Batch} {batch : Batch} :
    CleanBatches workload (earlier ++ [batch]) ↔
      CleanBatches workload earlier ∧ batch.tasks ≠ [] ∧ CleanTasks workload earlier batch.tasks := by
  constructor
  · intro h
    have nodup := h.nodup
    simp only [workOf_append, workOf_cons, workOf_nil, List.append_nil, List.nodup_append'] at nodup
    have mem : batch ∈ earlier ++ [batch] := by simp
    refine ⟨h.sublist (List.sublist_append_left _ _), h.nonempty batch mem, fun task ht => ?_,
      h.apart batch mem, fun task ht again => ?_⟩
    · exact h.contains task (List.mem_flatMap.mpr ⟨batch, mem, ht⟩)
    · exact nodup.2.2 again (List.mem_map_of_mem ht)
  · rintro ⟨clean, some, tasks⟩
    refine ⟨?_, ?_, ?_, ?_⟩
    · rw [List.forall_mem_append, List.forall_mem_singleton]
      exact ⟨clean.nonempty, some⟩
    · rw [List.flatMap_append, List.flatMap_singleton, List.forall_mem_append]
      exact ⟨clean.contains, tasks.contains⟩
    · rw [List.forall_mem_append, List.forall_mem_singleton]
      exact ⟨clean.apart, tasks.apart⟩
    · simp only [workOf_append, workOf_cons, workOf_nil, List.append_nil, List.nodup_append']
      refine ⟨clean.nodup, tasks.nodup, fun task again mem => ?_⟩
      obtain ⟨written, hw, rfl⟩ := List.mem_map.mp mem
      exact tasks.fresh written hw again

theorem cleanTasks_concat {earlier : List Batch} {before : List Task} {task : Task} :
    CleanTasks workload earlier (before ++ [task]) ↔
      CleanTasks workload earlier before ∧ workload.Contains task ∧
        (∀ p ∈ task.partitions, p ∉ before.flatMap Task.partitions) ∧
        task.normalized ∉ workOf earlier := by
  have apart : (∀ other ∈ before, other.Apart task) ↔
      ∀ p ∈ task.partitions, p ∉ before.flatMap Task.partitions := by
    simp only [Task.Apart, List.mem_flatMap, not_exists, not_and]
    exact ⟨fun h p hp other mem used => h other mem p used hp,
      fun h other mem p used hp => h p hp other mem used⟩
  constructor
  · rintro ⟨contains, pairwise, fresh⟩
    rw [List.forall_mem_append, List.forall_mem_singleton] at contains fresh
    rw [List.pairwise_append] at pairwise
    refine ⟨⟨contains.1, pairwise.1, fresh.1⟩, contains.2, ?_, fresh.2⟩
    exact apart.mp fun other mem => pairwise.2.2 other mem task (by simp)
  · rintro ⟨clean, inside, free, new⟩
    refine ⟨?_, ?_, ?_⟩
    · rw [List.forall_mem_append, List.forall_mem_singleton]
      exact ⟨clean.contains, inside⟩
    · rw [List.pairwise_append]
      refine ⟨clean.apart, List.pairwise_singleton _ _, ?_⟩
      simpa using apart.mpr free
    · rw [List.forall_mem_append, List.forall_mem_singleton]
      exact ⟨clean.fresh, new⟩

/-- The exact covers are the clean schedules in which no task is missing. -/
theorem exactCover_iff {schedule : Schedule} :
    ExactCover workload schedule ↔ CleanBatches workload schedule.batches ∧
      ∀ task ∈ workload.tasks, task ∈ workOf schedule.batches := by
  constructor
  · intro cover
    have unique : (workOf schedule.batches).Nodup := cover.perm.nodup_iff.mpr workload.nodup_tasks
    exact ⟨⟨cover.nonempty, fun task => cover.contains, cover.apart, unique⟩,
      fun task mem => cover.perm.mem_iff.mpr mem⟩
  · rintro ⟨clean, complete⟩
    refine ⟨clean.nonempty, clean.apart, fun batch hb task ht => ?_, ?_⟩
    · exact workload.proper_of_contains (clean.contains task (List.mem_flatMap.mpr ⟨batch, hb, ht⟩))
    · refine (List.perm_ext_iff_of_nodup clean.nodup workload.nodup_tasks).mpr fun task => ?_
      refine ⟨fun mem => ?_, complete task⟩
      obtain ⟨written, hw, rfl⟩ := List.mem_map.mp mem
      exact workload.normalized_mem_tasks.mpr (clean.contains written hw)

/-! ## Something is the first -/

/-- What stands at a position parts the list there. -/
theorem exists_split_of_getElem? {α : Type} {items : List α} {index : Nat} {item : α}
    (found : items[index]? = some item) :
    ∃ before after, items = before ++ item :: after ∧ before.length = index := by
  obtain ⟨inside, rfl⟩ := List.getElem?_eq_some_iff.mp found
  refine ⟨items.take index, items.drop (index + 1), ?_, List.length_take_of_le (Nat.le_of_lt inside)⟩
  rw [← List.drop_eq_getElem_cons, List.take_append_drop]

/-- A list that is not good has a first item that spoils it. -/
theorem exists_first_spoiling {α : Type} {good : List α → Prop} {items : List α} (start : good [])
    (bad : ¬ good items) :
    ∃ before item after, items = before ++ item :: after ∧ good before ∧
      ¬ good (before ++ [item]) := by
  induction items using List.reverseRecOn with
  | nil => exact absurd start bad
  | append_singleton items item ih =>
    by_cases further : good items
    · exact ⟨items, item, [], rfl, further, bad⟩
    · obtain ⟨before, first, after, rfl, clean, spoilt⟩ := ih further
      exact ⟨before, first, after ++ [item], by simp, clean, spoilt⟩

theorem Workload.exists_first {property : Task → Prop} {task : Task} (mem : task ∈ workload.tasks)
    (holds : property task) : ∃ task, workload.First property task := by
  have spoilt : ¬ ∀ other ∈ workload.tasks, ¬ property other := fun none => none task mem holds
  obtain ⟨before, first, after, split, none, some⟩ :=
    @exists_first_spoiling Task (fun tasks => ∀ other ∈ tasks, ¬ property other) _ (by simp) spoilt
  refine ⟨first, ?_, before, after, split, none⟩
  by_contra not
  exact some (List.forall_mem_append.mpr ⟨none, List.forall_mem_singleton.mpr not⟩)

/-- Whatever spoils a batch is blamed for something. -/
theorem exists_blames {earlier : List Batch} {before : List Task} {task : Task}
    (clean : CleanTasks workload earlier before)
    (spoilt : ¬ CleanTasks workload earlier (before ++ [task])) :
    ∃ violation, Blames workload earlier before task violation := by
  classical
  by_cases inside : workload.Contains task
  swap
  · exact ⟨_, .foreign inside⟩
  by_cases used : ∃ p, p ∈ task.partitions ∧ p ∈ before.flatMap Task.partitions
  · obtain ⟨mem, clash⟩ := Nat.find_spec used
    exact ⟨_, .overlap inside mem clash fun q hq hused => Nat.find_min' used ⟨hq, hused⟩⟩
  · have free : ∀ p ∈ task.partitions, p ∉ before.flatMap Task.partitions :=
      fun p hp clash => used ⟨p, hp, clash⟩
    refine ⟨_, .duplicate inside free ?_⟩
    by_contra new
    exact spoilt (cleanTasks_concat.mpr ⟨clean, inside, free, new⟩)

/-- A schedule that is no exact cover has a first violation. -/
theorem exists_firstViolation {schedule : Schedule} (rejected : ¬ ExactCover workload schedule) :
    ∃ violation, FirstViolation workload schedule.batches violation := by
  by_cases clean : CleanBatches workload schedule.batches
  · rw [exactCover_iff, not_and] at rejected
    obtain ⟨task, absent⟩ := not_forall.mp (rejected clean)
    obtain ⟨mem, absent⟩ := Classical.not_imp.mp absent
    obtain ⟨first, missing⟩ : ∃ first, workload.First (· ∉ workOf schedule.batches) first :=
      Workload.exists_first mem absent
    exact ⟨_, .missing clean missing⟩
  · obtain ⟨earlier, ⟨tasks⟩, later, split, clean, spoilt⟩ :=
      exists_first_spoiling cleanBatches_nil clean
    by_cases empty : tasks = []
    · subst empty
      exact ⟨_, .emptyBatch split clean⟩
    · have tasksSpoilt : ¬ CleanTasks workload earlier tasks :=
        fun start => spoilt (cleanBatches_concat.mpr ⟨clean, empty, start⟩)
      obtain ⟨before, task, after, rfl, start, taskSpoilt⟩ :=
        exists_first_spoiling (cleanTasks_nil earlier) tasksSpoilt
      obtain ⟨violation, blames⟩ := exists_blames start taskSpoilt
      exact ⟨violation, .atTask split clean start blames⟩

/-! ## The scan stops there -/

/-- The indices of a normalized task stand in ascending order. -/
theorem Task.pairwise_partitions_normalized (task : Task) :
    task.normalized.partitions.Pairwise (· ≤ ·) := by
  cases task with
  | diagonal p => exact List.pairwise_singleton _ p
  | cross a b =>
    simp only [normalized, between]
    split
    · simpa [partitions]
    · simpa [partitions] using Nat.le_of_lt (Nat.lt_of_not_le ‹_›)

/-- The first index of a normalized task with a property is the lowest one. -/
theorem Task.find?_partitions_normalized {task : Task} {property : Partition → Bool} {p : Partition} :
    task.normalized.partitions.find? property = some p ↔
      p ∈ task.partitions ∧ property p ∧ ∀ q ∈ task.partitions, property q → p ≤ q := by
  have least : ∀ {q}, task.normalized.partitions.find? property = some q →
      q ∈ task.partitions ∧ property q ∧ ∀ r ∈ task.partitions, property r → q ≤ r := by
    intro q search
    have mem := List.mem_of_find?_eq_some search
    obtain ⟨holds, before, after, split, none⟩ := List.find?_eq_some_iff_append.mp search
    refine ⟨mem_partitions_normalized.mp mem, holds, fun r hr fit => ?_⟩
    have ascending := task.pairwise_partitions_normalized
    rw [split, List.pairwise_append, List.pairwise_cons] at ascending
    rw [← mem_partitions_normalized, split, List.mem_append, List.mem_cons] at hr
    rcases hr with early | rfl | late
    · have unfit := none r early
      simp [fit] at unfit
    · exact Nat.le_refl r
    · exact ascending.2.1.1 r late
  refine ⟨least, fun ⟨mem, holds, lowest⟩ => ?_⟩
  cases search : task.normalized.partitions.find? property with
  | none => exact absurd holds (List.find?_eq_none.mp search p (mem_partitions_normalized.mpr mem))
  | some q =>
    obtain ⟨inside, fit, below⟩ := least search
    exact congrArg some (Nat.le_antisymm (below p mem holds) (lowest q inside fit))

namespace Schedule

/-- The scan of a batch goes on where it stood. -/
theorem scanTasks_append {index : Nat} {active scheduled : IndexSet} {first rest : List Task} :
    scanTasks workload index active scheduled (first ++ rest) =
      (scanTasks workload index active scheduled first).bind fun found =>
        scanTasks workload index
          (active.insertEach (first.flatMap fun task => task.normalized.partitions)) found rest := by
  induction first generalizing active scheduled with
  | nil => rfl
  | cons task first ih =>
    simp only [List.cons_append, scanTasks, List.flatMap_cons, IndexSet.insertEach_append]
    by_cases inside : workload.Contains task.normalized
    swap
    · simp only [inside, if_false]
      rfl
    simp only [inside, if_true]
    cases task.normalized.partitions.find? (· ∈ active) with
    | some p => rfl
    | none =>
      by_cases seen : workload.cell task.normalized ∈ scheduled
      · simp only [seen, if_true]
        rfl
      · simp only [seen, if_false]
        exact ih

theorem scanBatches_append {index : Nat} {scheduled : IndexSet} {first rest : List Batch} :
    scanBatches workload index scheduled (first ++ rest) =
      (scanBatches workload index scheduled first).bind fun found =>
        scanBatches workload (index + first.length) found rest := by
  induction first generalizing index scheduled with
  | nil => rfl
  | cons batch first ih =>
    rw [List.cons_append, scanBatches, scanBatches]
    split
    · rfl
    · cases scanTasks workload index .empty scheduled batch.tasks with
      | error violation => rfl
      | ok found =>
        have next : index + 1 + first.length = index + (batch :: first).length := by
          rw [List.length_cons]
          omega
        rw [← next]
        exact ih

/-- The places that are marked when the tasks are read. -/
def marked (workload : Workload) (tasks : List Task) : IndexSet :=
  IndexSet.empty.insertEach (tasks.map workload.place)

/-- The partitions that are active when the tasks of a batch are read. -/
def active (before : List Task) : IndexSet :=
  IndexSet.empty.insertEach (before.flatMap fun task => task.normalized.partitions)

@[simp]
theorem mem_active {before : List Task} {p : Partition} :
    p ∈ active before ↔ p ∈ before.flatMap Task.partitions := by
  simp [active]

/-- Clean batches are read to their end. -/
theorem scanBatches_of_clean {earlier : List Batch} (clean : CleanBatches workload earlier) :
    scanBatches workload 0 .empty earlier = .ok (marked workload (earlier.flatMap Batch.tasks)) :=
  scanBatches_eq_ok_iff.mpr ⟨fun batch mem => ⟨clean.nonempty batch mem, clean.apart batch mem⟩,
    fun task mem => ⟨clean.contains task mem, IndexSet.not_mem_empty _⟩,
    List.pairwise_map.mp clean.nodup, rfl⟩

variable {earlier : List Batch} {before : List Task}

/-- The clean start of a batch behind clean batches is read to its end. -/
theorem scanTasks_of_clean (clean : CleanBatches workload earlier)
    (start : CleanTasks workload earlier before) (index : Nat) :
    scanTasks workload index .empty (marked workload (earlier.flatMap Batch.tasks)) before =
      .ok (marked workload (earlier.flatMap Batch.tasks ++ before)) := by
  rw [scanTasks_eq_ok_iff]
  refine ⟨fun task mem => ⟨start.contains task mem, ?_, by simp⟩, start.apart, ?_⟩
  · have inside := workload.normalized_mem_tasks.mpr (start.contains task mem)
    exact fun seen => start.fresh task mem ((workload.marked_iff clean.contains inside).mp seen)
  · rw [marked, marked, List.map_append, IndexSet.insertEach_append]

/-- At the task that is to blame the scan stops. -/
theorem scanTasks_of_blames (clean : CleanBatches workload earlier)
    (start : CleanTasks workload earlier before) {task : Task} {violation : Violation}
    (blames : Blames workload earlier before task violation) (after : List Task) :
    scanTasks workload earlier.length (active before)
      (marked workload (earlier.flatMap Batch.tasks ++ before)) (task :: after) =
        .error violation := by
  cases blames with
  | foreign outside => simp [scanTasks, outside]
  | overlap inside mem used lowest =>
    have found : task.normalized.partitions.find? (· ∈ active before) = some _ :=
      Task.find?_partitions_normalized.mpr ⟨mem, by simpa using used, by simpa using lowest⟩
    simp only [scanTasks, Workload.contains_normalized, inside, if_true, found]
  | duplicate inside free again =>
    have none : task.normalized.partitions.find? (· ∈ active before) = none := by
      simpa [List.find?_eq_none] using free
    have contained : ∀ other ∈ earlier.flatMap Batch.tasks ++ before, workload.Contains other :=
      List.forall_mem_append.mpr ⟨clean.contains, start.contains⟩
    have seen : workload.cell task.normalized ∈
        marked workload (earlier.flatMap Batch.tasks ++ before) := by
      refine (workload.marked_iff contained (workload.normalized_mem_tasks.mpr inside)).mpr ?_
      rw [List.map_append]
      exact List.mem_append_left _ again
    simp only [scanTasks, Workload.contains_normalized, inside, if_true, none, seen]

/-- Clean batches and the clean start of a batch behind them are read before the task to blame is. -/
theorem scanBatches_of_blames (clean : CleanBatches workload earlier)
    (start : CleanTasks workload earlier before) {task : Task} {violation : Violation}
    (blames : Blames workload earlier before task violation) (after : List Task)
    (later : List Batch) :
    scanBatches workload 0 .empty (earlier ++ ⟨before ++ task :: after⟩ :: later) =
      .error violation := by
  have batch : scanTasks workload earlier.length .empty
      (marked workload (earlier.flatMap Batch.tasks)) (before ++ task :: after) =
        .error violation := by
    rw [scanTasks_append, scanTasks_of_clean clean start]
    exact scanTasks_of_blames clean start blames after
  rw [scanBatches_append, scanBatches_of_clean clean, Except.bind, Nat.zero_add, scanBatches,
    if_neg (by simp [Batch.isEmpty]), batch]
  rfl

/-- The validator reports a first violation. -/
theorem validate_of_firstViolation {schedule : Schedule} {violation : Violation}
    (first : FirstViolation workload schedule.batches violation) :
    schedule.validate workload = .error violation := by
  rw [validate]
  cases first with
  | emptyBatch split clean =>
    rw [split, scanBatches_append, scanBatches_of_clean clean, Except.bind, Nat.zero_add]
    rfl
  | atTask split clean start blames =>
    rw [split, scanBatches_of_blames clean start blames]
    rfl
  | @missing task clean first =>
    obtain ⟨absent, before, after, split, present⟩ := first
    have unmarked : ∀ other ∈ workload.tasks,
        workload.cell other ∉ marked workload (schedule.batches.flatMap Batch.tasks) ↔
          other ∉ workOf schedule.batches :=
      fun other mem => not_congr (workload.marked_iff clean.contains mem)
    have search : workload.tasks.find?
        (workload.cell · ∉ marked workload (schedule.batches.flatMap Batch.tasks)) = some task := by
      rw [List.find?_eq_some_iff_append]
      refine ⟨?_, before, after, split, fun other mem => ?_⟩
      · exact decide_eq_true ((unmarked task (by simp [split])).mpr absent)
      · have there := mt (unmarked other (by simp [split, mem])).mp (present other mem)
        simpa using there
    rw [scanBatches_of_clean clean]
    simp only [bind, Except.bind, search]

/-- The validator reports the first violation and nothing else. -/
theorem validate_eq_error_iff {schedule : Schedule} {violation : Violation} :
    schedule.validate workload = .error violation ↔
      FirstViolation workload schedule.batches violation := by
  refine ⟨fun reported => ?_, validate_of_firstViolation⟩
  have rejected : ¬ ExactCover workload schedule := by
    rw [← validate_eq_ok_iff, reported]
    simp
  obtain ⟨first, found⟩ := exists_firstViolation rejected
  have same := validate_of_firstViolation found
  rw [reported, Except.error.injEq] at same
  exact same ▸ found

/-! ## What a report says -/

/-- At the first task that spoils what was read before it the validator reports what is wrong with that
task. -/
theorem validate_at_spoiling {schedule : Schedule} {after : List Task} {task : Task}
    {later : List Batch} (split : schedule.batches = earlier ++ ⟨before ++ task :: after⟩ :: later)
    (clean : CleanBatches workload earlier) (start : CleanTasks workload earlier before)
    (spoilt : ¬ CleanTasks workload earlier (before ++ [task])) (violation : Violation) :
    schedule.validate workload = .error violation ↔
      Blames workload earlier before task violation := by
  have reports : ∀ {violation}, Blames workload earlier before task violation →
      schedule.validate workload = .error violation :=
    fun blames => validate_of_firstViolation (.atTask split clean start blames)
  refine ⟨fun reported => ?_, reports⟩
  obtain ⟨other, blames⟩ := exists_blames start spoilt
  have same := reports blames
  rw [reported, Except.error.injEq] at same
  exact same ▸ blames

/-- An empty batch is reported exactly if everything before it is clean. -/
theorem validate_eq_emptyBatch_iff {schedule : Schedule} {index : Nat} :
    schedule.validate workload = .error (.emptyBatch index) ↔
      schedule.batches[index]? = some .empty ∧
        CleanBatches workload (schedule.batches.take index) := by
  rw [validate_eq_error_iff]
  constructor
  · rintro (⟨split, clean⟩ | ⟨-, -, -, ⟨⟩⟩)
    rw [split]
    simpa using clean
  · rintro ⟨found, clean⟩
    obtain ⟨earlier, later, split, rfl⟩ := exists_split_of_getElem? found
    rw [split, List.take_left] at clean
    exact .emptyBatch split clean

theorem validate_eq_missing_iff {schedule : Schedule} {task : Task} :
    schedule.validate workload = .error (.missing task) ↔
      CleanBatches workload schedule.batches ∧
        workload.First (· ∉ workOf schedule.batches) task := by
  rw [validate_eq_error_iff]
  constructor
  · rintro (_ | ⟨-, -, -, ⟨⟩⟩ | ⟨clean, first⟩)
    exact ⟨clean, first⟩
  · rintro ⟨clean, first⟩
    exact .missing clean first

/-- A partition that is reported as overlapping occurs at two places of the batch. -/
theorem exists_two_of_overlap {schedule : Schedule} {index : Nat} {p : Partition}
    (reported : schedule.validate workload = .error (.overlap index p)) :
    ∃ batch, schedule.batches[index]? = some batch ∧ ∃ (i j : Nat) (s t : Task), i < j ∧
      batch.tasks[i]? = some s ∧ batch.tasks[j]? = some t ∧
      p ∈ s.partitions ∧ p ∈ t.partitions := by
  rw [validate_eq_error_iff] at reported
  cases reported with
  | @atTask earlier later before after task _ split clean start blames =>
    cases blames with
    | overlap inside mem used lowest =>
      obtain ⟨other, early, shared⟩ := List.mem_flatMap.mp used
      obtain ⟨i, below, rfl⟩ := List.mem_iff_getElem.mp early
      refine ⟨⟨before ++ task :: after⟩, by simp [split], i, before.length, _, task, below, ?_, ?_,
        shared, mem⟩
      · rw [List.getElem?_append_left below, List.getElem?_eq_getElem below]
      · simp

/-- A task that is reported as scheduled more than once was scheduled in an earlier batch, and stands at
no earlier place of the batch in which it is found again. -/
theorem exists_earlier_of_duplicate {schedule : Schedule} {task : Task}
    (reported : schedule.validate workload = .error (.duplicate task)) :
    ∃ earlier before written after later,
      schedule.batches = earlier ++ ⟨before ++ written :: after⟩ :: later ∧
      written.normalized = task ∧ task ∈ workOf earlier ∧ task ∉ before.map Task.normalized := by
  rw [validate_eq_error_iff] at reported
  cases reported with
  | atTask split clean start blames =>
    cases blames with
    | duplicate inside free again =>
      refine ⟨_, _, _, _, _, split, rfl, again, fun mem => ?_⟩
      obtain ⟨other, early, same⟩ := List.mem_map.mp mem
      have apart : other.Apart _ := fun p used shared =>
        free p shared (List.mem_flatMap.mpr ⟨other, early, used⟩)
      exact apart.normalized_ne same

/-- The validator names the first violation. A report of any kind is the first violation of the schedule
in the order of reading, and the first violation is reported. So an empty batch is reported exactly if
every batch before it is clean, and a missing task exactly if all batches are clean and it is the first
one that none of them has; at the first task with which a prefix stops being clean, the report is what is
wrong with that task. An overlap is always one of two tasks of the batch, and a duplicate never one of
two tasks in one batch. -/
theorem validate_names_first (workload : Workload) (schedule : Schedule) :
    (∀ violation, schedule.validate workload = .error violation ↔
      FirstViolation workload schedule.batches violation) ∧
    (∀ index, schedule.validate workload = .error (.emptyBatch index) ↔
      schedule.batches[index]? = some .empty ∧
        CleanBatches workload (schedule.batches.take index)) ∧
    (∀ earlier before task after later,
      schedule.batches = earlier ++ ⟨before ++ task :: after⟩ :: later →
      CleanBatches workload earlier → CleanTasks workload earlier before →
      ¬ CleanTasks workload earlier (before ++ [task]) →
      ∀ violation, schedule.validate workload = .error violation ↔
        Blames workload earlier before task violation) ∧
    (∀ task, schedule.validate workload = .error (.missing task) ↔
      CleanBatches workload schedule.batches ∧
        workload.First (· ∉ workOf schedule.batches) task) ∧
    (∀ index p, schedule.validate workload = .error (.overlap index p) →
      ∃ batch, schedule.batches[index]? = some batch ∧ ∃ (i j : Nat) (s t : Task), i < j ∧
        batch.tasks[i]? = some s ∧ batch.tasks[j]? = some t ∧
        p ∈ s.partitions ∧ p ∈ t.partitions) ∧
    (∀ task, schedule.validate workload = .error (.duplicate task) →
      ∃ earlier before written after later,
        schedule.batches = earlier ++ ⟨before ++ written :: after⟩ :: later ∧
        written.normalized = task ∧ task ∈ workOf earlier ∧ task ∉ before.map Task.normalized) :=
  ⟨fun _ => validate_eq_error_iff, fun _ => validate_eq_emptyBatch_iff,
    fun _ _ _ _ _ split clean start spoilt => validate_at_spoiling split clean start spoilt,
    fun _ => validate_eq_missing_iff, fun _ _ => exists_two_of_overlap,
    fun _ => exists_earlier_of_duplicate⟩

/-- The pair of 0 and 1 is scheduled for the second time, but its batch uses partition 1 already, and that
is what is reported; behind an empty batch it is not reached. -/
theorem repeated_batch_names_first :
    let workload : Workload := ⟨3, by decide⟩
    let first : Batch := ⟨[.cross 1 0, .diagonal 2]⟩
    let schedule : Schedule := ⟨3, [first, ⟨[.diagonal 1, .cross 0 1]⟩]⟩
    CleanBatches workload [first] ∧ CleanTasks workload [first] [.diagonal 1] ∧
    ¬ CleanTasks workload [first] [.diagonal 1, .cross 0 1] ∧
    schedule.validate workload = .error (.overlap 1 1) ∧
    Schedule.validate workload ⟨3, [first, .empty, ⟨[.diagonal 1, .cross 0 1]⟩]⟩ =
      .error (.emptyBatch 1) := by
  intro workload first schedule
  have clean : CleanBatches workload [first] := ⟨by decide, by decide, by decide, by decide⟩
  have start : CleanTasks workload [first] [.diagonal 1] := ⟨by decide, by decide, by decide⟩
  have spoilt : ¬ CleanTasks workload [first] [.diagonal 1, .cross 0 1] :=
    fun h => h.fresh (.cross 0 1) (by decide) (by decide)
  obtain ⟨-, -, atTask, -⟩ := validate_names_first workload schedule
  obtain ⟨-, empty, -⟩ := validate_names_first workload
    ⟨3, [first, .empty, ⟨[.diagonal 1, .cross 0 1]⟩]⟩
  refine ⟨clean, start, spoilt, ?_, (empty 1).mpr ⟨rfl, clean⟩⟩
  refine (atTask [first] [.diagonal 1] (.cross 0 1) [] [] rfl clean start spoilt _).mpr ?_
  exact .overlap (by decide) (by decide) (by decide) (by decide)

end Schedule

end AllPairs
