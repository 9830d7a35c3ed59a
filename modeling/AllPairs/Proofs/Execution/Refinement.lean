import AllPairs.Proofs.Execution.Following

/-!
# A pool does what the sequential executor does

If how a comparison ends depends on its task alone, the order in which tasks are performed does not
show in a report but for the order of the failures of one batch. The driver knows the batch of a
failure only by its own position, so this rests on the barrier: no result gets past it.
-/

namespace AllPairs

/-- How the comparison ends depends on the task alone. -/
def Comparison.Steady {ω : Type} (perform : Comparison ω) (outcome : Task → Completion) : Prop :=
  ∀ task world, (perform task world).1 = outcome task

namespace Execution

variable {ε ε' ω ω' : Type}

/-! ## Reports of rearranged results -/

/-- The reports are the same but for the order of the failures of each batch, and the failures of a
batch come before those of later ones. -/
structure Report.Rearranges (report other : Report) : Prop where
  batches : report.batches = other.batches
  completed : report.completed = other.completed
  failures : ∀ batch, (report.failures.filter (·.batch = batch)).Perm
    (other.failures.filter (·.batch = batch))
  ordered : report.failures.Pairwise fun f g => f.batch ≤ g.batch

section Rearranged

variable {outcomes others : List (List TaskResult)}

theorem length_completed_of_perm (same : List.Forall₂ List.Perm outcomes others) :
    (outcomes.flatMap completedTasks).length = (others.flatMap completedTasks).length := by
  induction same with
  | nil => rfl
  | cons first _ ih =>
    have completed := ((first.filter fun result => result.fault.isNone).map TaskResult.task).length_eq
    rw [List.flatMap_cons, List.flatMap_cons, List.length_append, List.length_append, ih]
    exact congrArg (· + _) completed

theorem perm_failuresFrom (index : Nat) (same : List.Forall₂ List.Perm outcomes others)
    (batch : Nat) :
    ((failuresFrom index outcomes).filter (·.batch = batch)).Perm
      ((failuresFrom index others).filter (·.batch = batch)) := by
  induction same generalizing index with
  | nil => exact .refl _
  | cons first _ ih =>
    rw [failuresFrom, failuresFrom, List.filter_append, List.filter_append]
    exact ((first.filterMap _).filter _).append (ih (index + 1))

theorem batch_of_mem_ofResults {index : Nat} {results : List TaskResult} {failure : Failure}
    (mem : failure ∈ Failure.ofResults index results) : failure.batch = index := by
  obtain ⟨result, -, made⟩ := List.mem_filterMap.mp mem
  obtain ⟨message, -, rfl⟩ := Option.map_eq_some_iff.mp made
  rfl

theorem le_batch_of_mem_failuresFrom {index : Nat} {failure : Failure}
    (mem : failure ∈ failuresFrom index outcomes) : index ≤ failure.batch := by
  induction outcomes generalizing index with
  | nil => cases mem
  | cons results outcomes ih =>
    rcases List.mem_append.mp mem with here | later
    · exact Nat.le_of_eq (batch_of_mem_ofResults here).symm
    · exact Nat.le_of_succ_le (ih later)

/-- Failures are listed batch by batch. -/
theorem pairwise_failuresFrom (index : Nat) (outcomes : List (List TaskResult)) :
    (failuresFrom index outcomes).Pairwise fun f g => f.batch ≤ g.batch := by
  induction outcomes generalizing index with
  | nil => exact .nil
  | cons results outcomes ih =>
    rw [failuresFrom, List.pairwise_append]
    refine ⟨?_, ih (index + 1), ?_⟩
    · apply List.pairwise_of_forall_mem_list
      intro f hf g hg
      rw [batch_of_mem_ofResults hf, batch_of_mem_ofResults hg]
    · intro f hf g hg
      rw [batch_of_mem_ofResults hf]
      exact Nat.le_of_succ_le (le_batch_of_mem_failuresFrom hg)

theorem Report.rearranges_of_perm (same : List.Forall₂ List.Perm outcomes others) :
    (Report.ofOutcomes outcomes).Rearranges (.ofOutcomes others) where
  batches := same.length_eq
  completed := length_completed_of_perm same
  failures := perm_failuresFrom 0 same
  ordered := pairwise_failuresFrom 0 outcomes

end Rearranged

/-! ## Runs of a steady comparison -/

variable {perform : Comparison ω} {outcome : Task → Completion} {schedule : Schedule}

/-- The result of a job, if how the comparison ends depends on the task alone. -/
def resultOf (outcome : Task → Completion) (ticket : Ticket ω) : TaskResult :=
  ⟨ticket.task, (outcome ticket.task).fault?⟩

theorem Run.Made.result_eq {start : ω} {calls : List (Call ω)} {run : Run ε ω}
    (made : run.Made perform start calls) (steady : perform.Steady outcome) {call : Call ω}
    (mem : call ∈ calls) : call.result = resultOf outcome call.ticket := by
  obtain ⟨before, result⟩ := made.history.exists_completion mem
  rw [result, made.caller call mem, steady]
  rfl

theorem perm_results {tickets : List (Ticket ω)} {calls : List (Call ω)}
    (perm : (calls.map Call.ticket).Perm tickets)
    (result : ∀ call ∈ calls, call.result = resultOf outcome call.ticket) :
    (calls.map Call.result).Perm (tickets.map (resultOf outcome)) := by
  have same : calls.map Call.result = (calls.map Call.ticket).map (resultOf outcome) := by
    rw [List.map_map]
    exact List.map_congr_left result
  rw [same]
  exact perm.map _

theorem forall₂_perm_results {jobs : List (List (Ticket ω))} {archive archive' : List (List (Call ω))}
    (filed : List.Forall₂ (fun tickets calls => (calls.map Call.ticket).Perm tickets) jobs archive)
    (filed' : List.Forall₂ (fun tickets calls => (calls.map Call.ticket).Perm tickets) jobs archive')
    (result : ∀ call ∈ archive.flatten, call.result = resultOf outcome call.ticket)
    (result' : ∀ call ∈ archive'.flatten, call.result = resultOf outcome call.ticket) :
    List.Forall₂ List.Perm (archive.map (List.map Call.result))
      (archive'.map (List.map Call.result)) := by
  induction filed generalizing archive' with
  | nil =>
    cases filed'
    exact .nil
  | cons first _ ih =>
    cases filed' with
    | cons first' rest' =>
      rw [List.flatten_cons, List.forall_mem_append] at result result'
      have here := (perm_results first result.1).trans (perm_results first' result'.1).symm
      exact .cons here (ih rest' result.2 result'.2)

/-- Runs that follow the same schedule hand over the same results at every barrier, up to their
order. -/
theorem Run.Follows.perm_outcomes {start start' : ω} {archive archive' : List (List (Call ω))}
    {run : Run ε ω} {run' : Run ε' ω} (steady : perform.Steady outcome)
    (h : run.Follows perform schedule start archive)
    (h' : run'.Follows perform schedule start' archive') :
    List.Forall₂ List.Perm run.outcomes run'.outcomes := by
  rw [h.outcomes, h'.outcomes]
  exact forall₂_perm_results h.jobs h'.jobs (fun _ mem => h.made.result_eq steady mem)
    (fun _ mem => h'.made.result_eq steady mem)

/-- A run of a schedule that is not disjoint ends at its first clash. -/
theorem Run.Follows.exists_refusal {start : ω} {archive : List (List (Call ω))} {run : Run ε ω}
    (h : run.Follows perform schedule start archive) (clash : ¬ schedule.Disjoint) :
    ∃ refusal, firstClash? 0 schedule.batches = some refusal ∧ run.report = .error refusal := by
  cases found : firstClash? 0 schedule.batches with
  | none => exact absurd (firstClash?_eq_none_iff.mp found) clash
  | some refusal =>
    have stopped := h.refusal
    rw [found] at stopped
    exact ⟨refusal, rfl, by rw [Run.report, stopped]⟩

/-! ## Main result -/

/-- What one run of a schedule, which made `calls`, comes to, given what another one comes to, which made
`others`: the same tasks were performed, and there is the same report up to the order of failures within
batches if all batches are disjoint, and otherwise the same refusal. -/
structure Run.Refines (perform : Comparison ω) (schedule : Schedule) (start : ω)
    (calls : List (Call ω)) (run : Run ε ω) (others : List (Call ω)) (other : Run ε' ω) : Prop where
  made : run.Made perform start calls
  tasks : (calls.map fun call => call.ticket.task).Perm (others.map fun call => call.ticket.task)
  report : schedule.Disjoint → ∃ report report', run.report = .ok report ∧
    other.report = .ok report' ∧ report.Rearranges report'
  refusal : ¬ schedule.Disjoint → ∃ refusal, run.report = .error refusal ∧
    other.report = .error refusal

theorem Run.Follows.refines {start : ω} {archive archive' : List (List (Call ω))}
    {run : Run ε ω} {run' : Run ε' ω} (steady : perform.Steady outcome)
    (h : run.Follows perform schedule start archive)
    (h' : run'.Follows perform schedule start archive') :
    run.Refines perform schedule start archive.flatten archive'.flatten run' where
  made := h.made
  tasks := h.perm_tasks.trans h'.perm_tasks.symm
  report disjoint :=
    ⟨_, _, h.report_of_disjoint disjoint, h'.report_of_disjoint disjoint,
      Report.rearranges_of_perm (h.perm_outcomes steady h')⟩
  refusal clash := by
    obtain ⟨refusal, found, stopped⟩ := h.exists_refusal clash
    obtain ⟨refusal', found', stopped'⟩ := h'.exists_refusal clash
    rw [found, Option.some.injEq] at found'
    exact ⟨refusal, stopped, found' ▸ stopped'⟩

/-- A pool refines the sequential executor. If how a comparison ends depends on its task alone, every
interleaving of a pool, that of its executor among them, comes to an end with what the sequential
executor comes to, up to the order of failures within batches; whether the schedule is refused or not,
both have then performed the same tasks. -/
theorem pool_refines_sequential {perform : Comparison ω} {outcome : Task → Completion}
    (steady : perform.Steady outcome) (schedule : Schedule) (world : ω) {workers : Nat}
    (pos : 0 < workers) :
    ∃ others,
      (execute (Sequential.executor ω) perform schedule .initial world).Made perform world others ∧
      (∃ calls, (execute (Pool.executor ω) perform schedule (.ofWorkers workers pos) world).Refines
        perform schedule world calls others
        (execute (Sequential.executor ω) perform schedule .initial world)) ∧
      EveryRun (Machine.Step perform)
        (fun machine => machine.driver.Stopped ∧
          machine.run.Refines perform schedule world machine.shop.performed others
            (execute (Sequential.executor ω) perform schedule .initial world))
        (.initial schedule workers pos world) := by
  obtain ⟨archive, follows⟩ := exists_follows_sequential perform schedule world
  refine ⟨archive.flatten, follows.made, ?_, Machine.everyRun ?_⟩
  · obtain ⟨archive', follows'⟩ := exists_follows_pool perform schedule pos world
    exact ⟨archive'.flatten, follows'.refines steady follows⟩
  · intro machine reachable stopped
    obtain ⟨archive', follows', performed⟩ := reachable.follows stopped
    rw [performed]
    exact ⟨stopped, follows'.refines steady follows⟩

/-- Two crashes in one batch may be reported in either order; the one in the next batch comes last. -/
theorem three_crashes_reported :
    let outcome : Task → Completion := fun task =>
      if task = .diagonal 2 then .success else .crash (some task.text)
    let perform : Comparison Nat := fun task calls => (outcome task, calls + 1)
    let schedule : Schedule :=
      ⟨3, [⟨[.diagonal 0, .cross 2 1]⟩, ⟨[.diagonal 2, .diagonal 1]⟩]⟩
    perform.Steady outcome ∧ 0 < 2 ∧
    EveryRun (Machine.Step perform)
      (fun machine => ∃ report, machine.run.report = .ok report ∧
        report.batches = 2 ∧ report.completed = 1 ∧
        (report.failures.filter (·.batch = 0)).Perm
          [⟨0, .diagonal 0, "diagonal(0)"⟩, ⟨0, .cross 2 1, "cross(2, 1)"⟩] ∧
        (report.failures.filter (·.batch = 1)).Perm [⟨1, .diagonal 1, "diagonal(1)"⟩])
      (.initial schedule 2 Nat.two_pos 0) := by
  intro outcome perform schedule
  have steady : perform.Steady outcome := fun _ _ => rfl
  obtain ⟨others, -, -, finite, ends⟩ := pool_refines_sequential steady schedule 0 Nat.two_pos
  refine ⟨steady, Nat.two_pos, finite, ?_⟩
  intro last path stuck
  obtain ⟨-, refines⟩ := ends last path stuck
  obtain ⟨report, inOrder, reported, made, same⟩ := refines.report (by decide)
  cases made
  exact ⟨report, reported, same.batches, same.completed, same.failures 0, same.failures 1⟩

end Execution
end AllPairs
