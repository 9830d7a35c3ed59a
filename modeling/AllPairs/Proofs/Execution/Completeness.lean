import AllPairs.Proofs.ExactCover
import AllPairs.Proofs.Execution.Following

/-!
# Accepted schedules are performed completely

The validator looks at tasks in normalized form, an executor at batches as they are written, with cross
tasks in either order. What the one accepts the other never refuses: an exact cover is disjoint. So
every task of the workload is performed once, and every call ends up in the report, either among the
completed ones or among the failures, however it ends.
-/

namespace AllPairs.Execution

variable {ε ω : Type}

/-! ## Reports count every result -/

theorem length_completedTasks_add (batch : Nat) (results : List TaskResult) :
    (completedTasks results).length + (Failure.ofResults batch results).length =
      results.length := by
  induction results with
  | nil => rfl
  | cons result results ih =>
    obtain ⟨task, fault⟩ := result
    cases fault with
    | none =>
      simp [completedTasks, Failure.ofResults] at ih ⊢
      omega
    | some message =>
      simp [completedTasks, Failure.ofResults] at ih ⊢
      omega

theorem length_completed_add_failuresFrom (index : Nat) (outcomes : List (List TaskResult)) :
    (outcomes.flatMap completedTasks).length + (failuresFrom index outcomes).length =
      outcomes.flatten.length := by
  induction outcomes generalizing index with
  | nil => rfl
  | cons results outcomes ih =>
    have first := length_completedTasks_add index results
    have rest := ih (index + 1)
    simp only [List.flatMap_cons, failuresFrom, List.flatten_cons, List.length_append]
    omega

/-- Every result counts once, as completed or as a failure. -/
theorem Report.completed_add_failures (outcomes : List (List TaskResult)) :
    (Report.ofOutcomes outcomes).completed + (Report.ofOutcomes outcomes).failures.length =
      outcomes.flatten.length :=
  length_completed_add_failuresFrom 0 outcomes

/-! ## Main result -/

/-- The run made the given calls, which perform the workload, and its report has all batches and
accounts for every task. -/
structure Run.Completes (perform : Comparison ω) (workload : Workload) (schedule : Schedule)
    (start : ω) (calls : List (Call ω)) (run : Run ε ω) : Prop where
  made : run.Made perform start calls
  tasks : (calls.map fun call => call.ticket.task.normalized).Perm workload.tasks
  report : ∃ report, run.report = .ok report ∧ report.batches = schedule.size ∧
    report.completed + report.failures.length = workload.partitions * (workload.partitions + 1) / 2

variable {perform : Comparison ω} {workload : Workload} {schedule : Schedule}

/-- Following an exact cover is performing the workload. -/
theorem Run.Follows.completes {start : ω} {archive : List (List (Call ω))} {run : Run ε ω}
    (h : run.Follows perform schedule start archive) (cover : ExactCover workload schedule) :
    run.Completes perform workload schedule start archive.flatten := by
  have whole := cover.disjoint.granted_eq
  refine ⟨h.made, ?_, .ofOutcomes run.outcomes, h.report_of_disjoint cover.disjoint, ?_, ?_⟩
  · have tasks := h.perm_tasks.map Task.normalized
    rw [List.map_map, whole] at tasks
    exact tasks.trans cover.perm
  · rw [← whole]
    exact h.length_outcomes
  · rw [Report.completed_add_failures, h.length_results, whole, cover.taskCount_eq, workload.size_eq]

/-- A schedule that the validator accepts is performed completely, by either executor and by a pool in
every interleaving, whatever the comparison does: it is never refused, the tasks that the comparison is
called for are those of the workload, and the report accounts for all of them. -/
theorem accepted_completes (accepted : schedule.validate workload = .ok ())
    (perform : Comparison ω) (world : ω) {workers : Nat} (pos : 0 < workers) :
    (∃ calls, (execute (Sequential.executor ω) perform schedule .initial world).Completes perform
      workload schedule world calls) ∧
    (∃ calls, (execute (Pool.executor ω) perform schedule (.ofWorkers workers pos) world).Completes
      perform workload schedule world calls) ∧
    (∀ machine, Machine.Reachable perform (.initial schedule workers pos world) machine →
      ∀ refusal, machine.driver ≠ .refused refusal) ∧
    EveryRun (Machine.Step perform)
      (fun machine => machine.driver.Ended ∧
        machine.run.Completes perform workload schedule world machine.shop.performed)
      (.initial schedule workers pos world) := by
  have cover := Schedule.validate_eq_ok_iff.mp accepted
  refine ⟨?_, ?_, ?_, ?_⟩
  · obtain ⟨archive, follows⟩ := exists_follows_sequential perform schedule world
    exact ⟨archive.flatten, follows.completes cover⟩
  · obtain ⟨archive, follows⟩ := exists_follows_pool perform schedule pos world
    exact ⟨archive.flatten, follows.completes cover⟩
  · intro machine reachable
    exact reachable.sound.not_refused cover.disjoint
  · apply Machine.everyRun
    intro machine reachable stopped
    obtain ⟨archive, follows, performed⟩ := reachable.follows stopped
    rw [performed]
    refine ⟨?_, follows.completes cover⟩
    rcases stopped with ended | ⟨refusal, stand⟩
    · exact ended
    · exact absurd stand (reachable.sound.not_refused cover.disjoint refusal)

/-- A pair written in descending order whose comparison crashes, and a call that fails because it is the
third one: all three tasks are performed and accounted for. -/
theorem descending_pair_completes :
    let schedule : Schedule := ⟨2, [⟨[.cross 1 0]⟩, ⟨[.diagonal 1, .diagonal 0]⟩]⟩
    let perform : Comparison Nat := .scripted
      [⟨some (.cross 1 0), none, none, .crash none⟩, ⟨none, none, some 2, .failure "late" []⟩]
    schedule.validate ⟨2, Nat.two_pos⟩ = .ok () ∧ 0 < 3 ∧
    (∃ calls, (execute (Sequential.executor Nat) perform schedule .initial 0).Completes perform
      ⟨2, Nat.two_pos⟩ schedule 0 calls) ∧
    EveryRun (Machine.Step perform)
      (fun machine => machine.driver.Ended ∧
        machine.run.Completes perform ⟨2, Nat.two_pos⟩ schedule 0 machine.shop.performed)
      (.initial schedule 3 (Nat.succ_pos 2) 0) := by
  intro schedule perform
  have accepted : schedule.validate ⟨2, Nat.two_pos⟩ = .ok () := by decide
  obtain ⟨inOrder, -, -, anyOrder⟩ := accepted_completes accepted perform 0 (Nat.succ_pos 2)
  exact ⟨accepted, Nat.succ_pos 2, inOrder, anyOrder⟩

end AllPairs.Execution
