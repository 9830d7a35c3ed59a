import AllPairs.Proofs.Execution.Completeness

/-!
# The sequential executor, call by call

Which calls an executor makes of a comparison is known best by the comparison itself. One that keeps a
record of its calls behaves as it would without it, so the record tells what happens in any run. The
sequential executor calls it for the tasks of the batches as they are written, in order, up to the first
batch that is not disjoint, however the calls end; that batch stops the run before any of its tasks is
called. The report counts the calls that succeeded and lists the others.
-/

namespace AllPairs

variable {ω : Type}

/-- A call of a comparison: for which task it was made, and how it ended. -/
structure Performed where
  task : Task
  completion : Completion
deriving DecidableEq

namespace Performed

/-- What an executor keeps of a call. -/
def result (call : Performed) : TaskResult :=
  ⟨call.task, call.completion.fault?⟩

/-- How a call of a batch is reported that did not succeed. -/
def failure? (batch : Nat) (call : Performed) : Option Execution.Failure :=
  call.completion.fault?.map fun message => ⟨batch, call.task, message⟩

theorem isNone_fault_result (call : Performed) :
    call.result.fault.isNone = decide (call.completion = .success) := by
  obtain ⟨task, completion⟩ := call
  cases completion <;> simp [result, Completion.fault?]

end Performed

/-- The comparison with a record of its calls. -/
def Comparison.recorded (perform : Comparison ω) : Comparison (ω × List Performed) :=
  fun task (world, record) =>
    let (completion, after) := perform task world
    (completion, after, record ++ [⟨task, completion⟩])

namespace Execution

variable {perform : Comparison ω} {schedule : Schedule} {start : ω}

/-! ## The batch that is refused -/

/-- Disjoint batches are passed. -/
theorem firstClash?_append {index : Nat} {earlier rest : List Batch}
    (clean : ∀ batch ∈ earlier, batch.Disjoint) :
    firstClash? index (earlier ++ rest) = firstClash? (index + earlier.length) rest := by
  induction earlier generalizing index with
  | nil => rfl
  | cons batch earlier ih =>
    obtain ⟨disjoint, others⟩ := List.forall_mem_cons.mp clean
    have place : index + 1 + earlier.length = index + (batch :: earlier).length := by
      rw [List.length_cons]
      omega
    rw [List.cons_append, firstClash?, if_pos disjoint, ih others, place]

theorem exists_split_of_firstClash? {index : Nat} {batches : List Batch} {refusal : Refusal}
    (clash : firstClash? index batches = some refusal) :
    ∃ earlier later, batches = earlier ++ refusal.batch :: later ∧
      refusal.index = index + earlier.length ∧ (∀ batch ∈ earlier, batch.Disjoint) ∧
      ¬ refusal.batch.Disjoint := by
  induction batches generalizing index with
  | nil => cases clash
  | cons batch batches ih =>
    by_cases disjoint : batch.Disjoint
    · rw [firstClash?, if_pos disjoint] at clash
      obtain ⟨earlier, later, rfl, place, clean, clashing⟩ := ih clash
      refine ⟨batch :: earlier, later, rfl, ?_, List.forall_mem_cons.mpr ⟨disjoint, clean⟩, clashing⟩
      rw [place, List.length_cons]
      omega
    · rw [firstClash?, if_neg disjoint] at clash
      obtain rfl := Option.some.inj clash
      exact ⟨[], batches, rfl, rfl, by simp, disjoint⟩

/-- The refused batch is the first one that is not disjoint. -/
theorem firstClash?_eq_some_iff {index : Nat} {batches : List Batch} {refusal : Refusal} :
    firstClash? index batches = some refusal ↔
      ∃ earlier later, batches = earlier ++ refusal.batch :: later ∧
        refusal.index = index + earlier.length ∧ (∀ batch ∈ earlier, batch.Disjoint) ∧
        ¬ refusal.batch.Disjoint := by
  refine ⟨exists_split_of_firstClash?, ?_⟩
  rintro ⟨earlier, later, rfl, place, clean, clash⟩
  rw [firstClash?_append clean, firstClash?, if_neg clash, ← place]

/-- The batches before the refused one are those that are granted. -/
theorem granted_of_firstClash? {refusal : Refusal}
    (clash : firstClash? 0 schedule.batches = some refusal) :
    schedule.granted.batches = schedule.batches.take refusal.index := by
  obtain ⟨earlier, later, split, place, clean, clash⟩ := firstClash?_eq_some_iff.mp clash
  rw [Nat.zero_add] at place
  rw [Schedule.granted, split, place, List.take_left, List.takeWhile_append_of_pos (by simpa using clean),
    List.takeWhile_cons_of_neg (by simpa using clash), List.append_nil]

/-! ## What is called -/

/-- Performing tasks in order calls the comparison for each of them once, whatever comes of it, and with a
record these calls are added to the record. -/
theorem exists_performed_captureEach (perform : Comparison ω) (tasks : List Task) (world : ω)
    (record : List Performed) :
    ∃ (calls : List Performed) (after : ω), calls.map Performed.task = tasks ∧
      TaskResult.captureEach perform tasks world = (calls.map Performed.result, after) ∧
      TaskResult.captureEach perform.recorded tasks (world, record) =
        (calls.map Performed.result, after, record ++ calls) := by
  induction tasks generalizing world record with
  | nil => exact ⟨[], world, rfl, rfl, by simp [TaskResult.captureEach]⟩
  | cons task tasks ih =>
    obtain ⟨calls, after, listed, plain, recorded⟩ :=
      ih (perform task world).2 (record ++ [⟨task, (perform task world).1⟩])
    refine ⟨⟨task, (perform task world).1⟩ :: calls, after, ?_, ?_, ?_⟩
    · rw [List.map_cons, listed]
    · simp [TaskResult.captureEach, TaskResult.capture, plain, Performed.result]
    · simp [TaskResult.captureEach, TaskResult.capture, Comparison.recorded, recorded,
        Performed.result]

/-- A fresh sequential executor performs a disjoint batch and is fresh again. -/
theorem performBatches_cons_sequential {index : Nat} {batch : Batch} {batches : List Batch}
    {world after : ω} {results : List TaskResult} (disjoint : batch.Disjoint)
    (captured : TaskResult.captureEach perform batch.tasks world = (results, after)) :
    performBatches (Sequential.executor ω) perform index (batch :: batches) .initial world =
      let rest := performBatches (Sequential.executor ω) perform (index + 1) batches .initial after
      { rest with outcomes := results :: rest.outcomes } := by
  rw [performBatches, if_pos disjoint]
  simp [Sequential.executor, Sequential.dispatch, Sequential.initial, captured]

/-- A fresh sequential executor performs batches up to the first one that is not disjoint and is left as
it was; the calls of each batch are grouped. -/
theorem exists_performed_performBatches (perform : Comparison ω) (index : Nat) (batches : List Batch)
    (world : ω) (record : List Performed) :
    ∃ (groups : List (List Performed)) (after : ω),
      groups.map (List.map Performed.task) =
        (batches.takeWhile fun batch => decide batch.Disjoint).map Batch.tasks ∧
      performBatches (Sequential.executor ω) perform index batches .initial world =
        ⟨groups.map (List.map Performed.result), firstClash? index batches, .initial, after⟩ ∧
      performBatches (Sequential.executor _) perform.recorded index batches .initial (world, record) =
        ⟨groups.map (List.map Performed.result), firstClash? index batches, .initial,
          after, record ++ groups.flatten⟩ := by
  induction batches generalizing index world record with
  | nil => exact ⟨[], world, rfl, rfl, by simp [performBatches, firstClash?]⟩
  | cons batch batches ih =>
    by_cases disjoint : batch.Disjoint
    · obtain ⟨calls, between, listed, plain, recorded⟩ :=
        exists_performed_captureEach perform batch.tasks world record
      obtain ⟨groups, after, rest, plainRest, recordedRest⟩ :=
        ih (index + 1) between (record ++ calls)
      refine ⟨calls :: groups, after, ?_, ?_, ?_⟩
      · simp [disjoint, listed, rest]
      · rw [performBatches_cons_sequential disjoint plain, plainRest, firstClash?, if_pos disjoint]
        rfl
      · rw [performBatches_cons_sequential disjoint recorded, recordedRest, firstClash?,
          if_pos disjoint, List.append_assoc]
        rfl
    · refine ⟨[], world, ?_, ?_, ?_⟩
      · simp [disjoint]
      · simp [performBatches, firstClash?, disjoint]
      · simp [performBatches, firstClash?, disjoint]

/-! ## What is reported -/

theorem length_completedTasks_map_result (calls : List Performed) :
    (completedTasks (calls.map Performed.result)).length =
      calls.countP fun call => call.completion = .success := by
  rw [completedTasks, List.length_map, ← List.countP_eq_length_filter, List.countP_map]
  exact congrArg (List.countP · calls) (funext Performed.isNone_fault_result)

theorem length_completed_map_result (groups : List (List Performed)) :
    ((groups.map (List.map Performed.result)).flatMap completedTasks).length =
      groups.flatten.countP fun call => call.completion = .success := by
  induction groups with
  | nil => rfl
  | cons calls groups ih =>
    rw [List.map_cons, List.flatMap_cons, List.length_append, ih, List.flatten_cons,
      List.countP_append, length_completedTasks_map_result]

theorem failuresFrom_map_result (index : Nat) (groups : List (List Performed)) :
    failuresFrom index (groups.map (List.map Performed.result)) =
      (groups.mapIdx fun position calls =>
        calls.filterMap (Performed.failure? (index + position))).flatten := by
  induction groups generalizing index with
  | nil => rfl
  | cons calls groups ih =>
    have first : Failure.ofResults index (calls.map Performed.result) =
        calls.filterMap (Performed.failure? index) := by
      rw [Failure.ofResults, List.filterMap_map]
      rfl
    have shift : ∀ position, index + 1 + position = index + (position + 1) := by
      intro position
      omega
    rw [List.map_cons, failuresFrom, first, ih, List.mapIdx_cons, List.flatten_cons]
    simp only [shift]
    rfl

theorem Run.report_eq_error_iff {ε : Type} {run : Run ε ω} {refusal : Refusal} :
    run.report = .error refusal ↔ run.refusal = some refusal := by
  unfold report
  cases run.refusal <;> simp

theorem Run.report_eq_ok_iff {ε : Type} {run : Run ε ω} {report : Report} :
    run.report = .ok report ↔ run.refusal = none ∧ report = .ofOutcomes run.outcomes := by
  unfold Run.report
  cases run.refusal <;> simp [eq_comm]

/-- What the sequential executor does with any schedule and any comparison, whatever its calls do to the
world. The calls that the comparison records of itself, grouped by batches, are those of the tasks of the
batches before the first one that is not disjoint, as they are written and in order. The run is refused
exactly if there is such a batch, and names the first one. Otherwise the report counts the calls that
succeeded, lists the others in order, and accounts for every task. -/
theorem sequential_calls (perform : Comparison ω) (schedule : Schedule) (world : ω) :
    let run := execute (Sequential.executor ω) perform schedule .initial world
    ∃ groups : List (List Performed),
      execute (Sequential.executor _) perform.recorded schedule .initial (world, []) =
        ⟨run.outcomes, run.refusal, run.executor, run.world, groups.flatten⟩ ∧
      run.executor = .initial ∧
      groups.map (List.map Performed.task) = schedule.granted.batches.map Batch.tasks ∧
      ((∃ refusal, run.report = .error refusal) ↔ ¬ schedule.Disjoint) ∧
      (∀ refusal, run.report = .error refusal ↔
        ∃ earlier later, schedule.batches = earlier ++ refusal.batch :: later ∧
          refusal.index = earlier.length ∧ (∀ batch ∈ earlier, batch.Disjoint) ∧
          ¬ refusal.batch.Disjoint) ∧
      (∀ refusal, run.report = .error refusal →
        groups.map (List.map Performed.task) =
          (schedule.batches.take refusal.index).map Batch.tasks) ∧
      (∀ report, run.report = .ok report →
        groups.map (List.map Performed.task) = schedule.batches.map Batch.tasks ∧
        report.batches = schedule.size ∧
        report.completed = groups.flatten.countP (fun call => call.completion = .success) ∧
        report.failures =
          (groups.mapIdx fun index calls => calls.filterMap (Performed.failure? index)).flatten ∧
        report.completed + report.failures.length = schedule.taskCount) := by
  intro run
  obtain ⟨groups, after, tasks, plain, recorded⟩ :=
    exists_performed_performBatches perform 0 schedule.batches world []
  have performed : run = ⟨groups.map (List.map Performed.result), firstClash? 0 schedule.batches,
    .initial, after⟩ := plain
  have granted : groups.map (List.map Performed.task) = schedule.granted.batches.map Batch.tasks := tasks
  rw [performed]
  refine ⟨groups, recorded, rfl, granted, ?_, fun refusal => ?_, fun refusal refused => ?_,
    fun report returned => ?_⟩
  · rw [Schedule.Disjoint, ← @firstClash?_eq_none_iff 0]
    simp only [Run.report_eq_error_iff]
    exact Option.ne_none_iff_exists'.symm
  · rw [Run.report_eq_error_iff, firstClash?_eq_some_iff]
    simp only [Nat.zero_add]
  · rw [granted, granted_of_firstClash? (Run.report_eq_error_iff.mp refused)]
  · obtain ⟨clean, rfl⟩ := Run.report_eq_ok_iff.mp returned
    have disjoint : schedule.Disjoint := firstClash?_eq_none_iff.mp clean
    rw [disjoint.granted_eq] at granted
    have count : groups.flatten.length = schedule.taskCount := by
      have flat := congrArg List.flatten granted
      rw [← List.map_flatten, ← List.flatMap_def] at flat
      rw [Schedule.taskCount, Schedule.tasks, ← flat, List.length_map]
    have size : groups.length = schedule.size := by
      simpa [Schedule.size] using congrArg List.length granted
    refine ⟨granted, ?_, length_completed_map_result groups, ?_, ?_⟩
    · rw [← size]
      exact List.length_map _
    · have failures := failuresFrom_map_result 0 groups
      simp only [Nat.zero_add] at failures
      exact failures
    · rw [Report.completed_add_failures, ← count, ← List.map_flatten, List.length_map]

/-- The same comparison on two schedules. The first call crashes and the third one fails, and all three
are made and reported. The batch in which partition 1 occurs twice is refused before any call of it, and
the one after it is not reached. -/
theorem crash_and_clash_sequential_calls :
    let perform : Comparison Nat := .scripted
      [⟨some (.cross 1 0), none, none, .crash none⟩,
        ⟨none, none, some 2, .failure "late" ["disk"]⟩]
    let disjoint : Schedule := ⟨2, [⟨[.cross 1 0]⟩, ⟨[.diagonal 1, .diagonal 0]⟩]⟩
    let clashing : Schedule := ⟨2, [⟨[.cross 1 0]⟩, ⟨[.cross 0 1, .diagonal 1]⟩, ⟨[.diagonal 0]⟩]⟩
    (∃ groups : List (List Performed),
      (execute (Sequential.executor Nat) perform disjoint .initial 0).report =
        .ok ⟨2, 1, [⟨0, .cross 1 0, "task panicked"⟩, ⟨1, .diagonal 0, "late: disk"⟩]⟩ ∧
      groups.map (List.map Performed.task) = [[.cross 1 0], [.diagonal 1, .diagonal 0]] ∧
      1 = groups.flatten.countP fun call => call.completion = .success) ∧
    (execute (Sequential.executor Nat) perform clashing .initial 0).report =
      .error ⟨1, ⟨[.cross 0 1, .diagonal 1]⟩⟩ ∧
    (execute (Sequential.executor _) perform.recorded clashing .initial (0, [])).world.2.map
      Performed.task = [.cross 1 0] := by
  intro perform disjoint clashing
  obtain ⟨groups, -, -, -, -, -, -, returned⟩ := sequential_calls perform disjoint 0
  have report : (execute (Sequential.executor Nat) perform disjoint .initial 0).report =
      .ok ⟨2, 1, [⟨0, .cross 1 0, "task panicked"⟩, ⟨1, .diagonal 0, "late: disk"⟩]⟩ := rfl
  obtain ⟨calls, -, completed, -⟩ := returned _ report
  obtain ⟨made, recorded, -, -, -, refused, before, -⟩ := sequential_calls perform clashing 0
  have refusal := (refused ⟨1, ⟨[.cross 0 1, .diagonal 1]⟩⟩).mpr
    ⟨[⟨[.cross 1 0]⟩], [⟨[.diagonal 0]⟩], rfl, rfl, by decide, by decide⟩
  refine ⟨⟨groups, report, calls, completed⟩, refusal, ?_⟩
  rw [recorded, List.map_flatten, before _ refusal]
  rfl

end Execution

end AllPairs
