import AllPairs.Benchmark
import AllPairs.Proofs.Counting

/-!
# Benchmark reports

A benchmark asks a planner about one number of partitions after the other, and the planner may answer
with anything and remember what it likes. The benchmark therefore follows the calls: it ends at the first
answer that the validator rejects, and asks nothing after it; if every answer is accepted the report has
one entry for each. What the entries say about each other follows from the validator alone, since an
accepted schedule is an exact cover.
-/

namespace AllPairs

/-- The workload over some more partitions. -/
def Workload.larger (workload : Workload) (more : Nat) : Workload :=
  ⟨workload.partitions + more, Nat.add_pos_left workload.pos more⟩

theorem Workload.larger_one_larger (workload : Workload) (more : Nat) :
    (workload.larger 1).larger more = workload.larger (more + 1) := by
  simp only [larger, Workload.mk.injEq]
  omega

namespace Planner

variable {σ : Type} (planner : Planner σ) (start : Workload) (memory : σ)

/-! ## Calls of a planner -/

/-- The memory of a planner after a number of calls, the first one about the given workload and every
further one about one partition more. -/
def memoryAfter : Nat → σ
  | 0 => memory
  | calls + 1 => (planner.plan (start.larger calls) (memoryAfter calls)).2

/-- The schedule that a planner answers with in one of these calls, counted from zero. -/
def answer (call : Nat) : Schedule :=
  (planner.plan (start.larger call) (planner.memoryAfter start memory call)).1

/-- The planner with a record of the numbers of partitions that it was asked about. -/
def recorded : Planner (σ × List Nat) where
  name := planner.name
  plan workload memory :=
    let (schedule, after) := planner.plan workload memory.1
    (schedule, after, memory.2 ++ [workload.partitions])

/-- The first call only matters for what the planner remembers of it. -/
theorem memoryAfter_succ (calls : Nat) :
    planner.memoryAfter (start.larger 1) (planner.plan start memory).2 calls =
      planner.memoryAfter start memory (calls + 1) := by
  induction calls with
  | zero => rfl
  | succ calls ih =>
    rw [memoryAfter, ih, start.larger_one_larger]
    rfl

theorem answer_succ (call : Nat) :
    planner.answer (start.larger 1) (planner.plan start memory).2 call =
      planner.answer start memory (call + 1) := by
  rw [answer, memoryAfter_succ, start.larger_one_larger, answer]

/-- Keeping a record changes nothing else. -/
theorem memoryAfter_recorded (record : List Nat) (calls : Nat) :
    planner.recorded.memoryAfter start (memory, record) calls =
      (planner.memoryAfter start memory calls, record ++ List.range' start.partitions calls) := by
  induction calls with
  | zero => simp [memoryAfter]
  | succ calls ih =>
    rw [memoryAfter, ih, memoryAfter, List.range'_1_concat, ← List.append_assoc]
    rfl

theorem answer_recorded (record : List Nat) (call : Nat) :
    planner.recorded.answer start (memory, record) call = planner.answer start memory call := by
  rw [answer, memoryAfter_recorded, answer]
  rfl

end Planner

namespace Benchmark

variable {σ : Type} (planner : Planner σ) (seconds : Nat → Float)

/-! ## Entries -/

/-- What the numbers of an entry say about each other. -/
structure Entry.Consistent (entry : Entry) : Prop where
  tasks : entry.tasks = entry.partitions * (entry.partitions + 1) / 2
  partitions_le_batches : entry.partitions ≤ entry.batches
  batches_le_tasks : entry.batches ≤ entry.tasks
  maxWidth_le_partitions : entry.maxWidth ≤ entry.partitions
  tasks_le : entry.tasks ≤ entry.batches * entry.maxWidth

/-- The entry of a schedule for a workload. -/
def describe (workload : Workload) (schedule : Schedule) : Entry where
  partitions := workload.partitions
  tasks := workload.size
  batches := schedule.size
  maxWidth := schedule.maxWidth
  time := seconds workload.partitions

/-- The entry of a schedule that the validator accepts is consistent, whoever made the schedule. -/
theorem consistent_describe {workload : Workload} {schedule : Schedule}
    (accepted : schedule.validate workload = .ok ()) :
    (describe seconds workload schedule).Consistent := by
  have cover := Schedule.validate_eq_ok_iff.mp accepted
  exact {
    tasks := workload.size_eq
    partitions_le_batches := cover.partitions_le_size
    batches_le_tasks := cover.size_le_size
    maxWidth_le_partitions := Schedule.maxWidth_le_iff.mpr fun _ hb => cover.size_le hb
    tasks_le := Nat.mul_comm _ _ ▸ cover.size_le_mul_size (Nat.le_refl schedule.maxWidth) }

/-- One call of the planner makes an entry or shows a defect. -/
theorem entry_eq (workload : Workload) (memory : σ) :
    entry planner seconds workload.partitions memory =
      (match (planner.plan workload memory).1.validate workload with
        | .error violation => .error (.defective workload.partitions violation)
        | .ok () => .ok (describe seconds workload (planner.plan workload memory).1),
      (planner.plan workload memory).2) := by
  rw [entry, Workload.ofSize_partitions]
  cases accepted : (planner.plan workload memory).1.validate workload <;> simp [accepted, describe]

/-! ## The loop over the sizes -/

section Calls

variable (start : Workload) (memory : σ)

/-- The validator accepts what the planner answers in the call. -/
def Accepted (call : Nat) : Prop :=
  (planner.answer start memory call).validate (start.larger call) = .ok ()

/-- The validator rejects what the planner answers in the call, and accepts every earlier answer. -/
def FirstRejected (call : Nat) (violation : Violation) : Prop :=
  (∀ earlier < call, Accepted planner start memory earlier) ∧
    (planner.answer start memory call).validate (start.larger call) = .error violation

variable {planner start memory}

theorem FirstRejected.not_accepted {call : Nat} {violation : Violation}
    (h : FirstRejected planner start memory call violation) :
    ¬ Accepted planner start memory call := by
  intro accepted
  rw [Accepted, h.2] at accepted
  cases accepted

/-- At most one call is the first to be rejected. -/
theorem FirstRejected.unique {call other : Nat} {violation others : Violation}
    (h : FirstRejected planner start memory call violation)
    (h' : FirstRejected planner start memory other others) : call = other ∧ violation = others := by
  have same : call = other := by
    rcases Nat.lt_trichotomy call other with less | same | more
    · exact absurd (h'.1 call less) h.not_accepted
    · exact same
    · exact absurd (h.1 other more) h'.not_accepted
  subst same
  exact ⟨rfl, Except.error.inj (h.2.symm.trans h'.2)⟩

theorem accepted_succ {call : Nat} :
    Accepted planner (start.larger 1) (planner.plan start memory).2 call ↔
      Accepted planner start memory (call + 1) := by
  rw [Accepted, planner.answer_succ, start.larger_one_larger, Accepted]

/-- The first call was accepted, so the first one to be rejected is the first of the others. -/
theorem firstRejected_succ (accepted : Accepted planner start memory 0) {call : Nat}
    {violation : Violation} :
    FirstRejected planner (start.larger 1) (planner.plan start memory).2 call violation ↔
      FirstRejected planner start memory (call + 1) violation := by
  rw [FirstRejected, FirstRejected, Nat.forall_lt_succ_left, planner.answer_succ,
    start.larger_one_larger]
  simp only [accepted_succ, accepted, true_and]

variable (planner start memory)

/-- Either every answer is accepted and has its entry, or the first one that is rejected ends the
benchmark. -/
theorem entries_cases (count : Nat) :
    (∀ call < count, Accepted planner start memory call) ∧
        entries planner seconds count start.partitions memory =
          (.ok ((List.range count).map fun call =>
              describe seconds (start.larger call) (planner.answer start memory call)),
            planner.memoryAfter start memory count) ∨
      ∃ call < count, ∃ violation, FirstRejected planner start memory call violation ∧
        entries planner seconds count start.partitions memory =
          (.error (.defective (start.partitions + call) violation),
            planner.memoryAfter start memory (call + 1)) := by
  induction count generalizing start memory with
  | zero => exact .inl ⟨by simp, rfl⟩
  | succ count ih =>
    have first := entry_eq planner seconds start memory
    cases verdict : (planner.plan start memory).1.validate start with
    | error violation =>
      refine .inr ⟨0, Nat.succ_pos count, violation, ⟨by simp, verdict⟩, ?_⟩
      rw [entries, first, verdict]
      rfl
    | ok =>
      have accepted : Accepted planner start memory 0 := verdict
      have partitions : (start.larger 1).partitions = start.partitions + 1 := rfl
      have next := ih (start.larger 1) (planner.plan start memory).2
      simp only [planner.memoryAfter_succ, planner.answer_succ, start.larger_one_larger,
        accepted_succ, firstRejected_succ accepted, partitions] at next
      obtain ⟨all, made⟩ | ⟨call, less, violation, rejected, made⟩ := next
      · refine .inl ⟨Nat.forall_lt_succ_left.mpr ⟨accepted, all⟩, ?_⟩
        rw [entries, first, verdict, List.range_succ_eq_map, List.map_cons, List.map_map]
        simp only [made]
        rfl
      · refine .inr ⟨call + 1, Nat.succ_lt_succ less, violation, rejected, ?_⟩
        rw [entries, first, verdict, ← Nat.add_assoc, Nat.add_right_comm]
        simp only [made]
        rfl

theorem accepted_recorded {record : List Nat} {call : Nat} :
    Accepted planner.recorded start (memory, record) call ↔ Accepted planner start memory call := by
  rw [Accepted, planner.answer_recorded, Accepted]

theorem firstRejected_recorded {record : List Nat} {call : Nat} {violation : Violation} :
    FirstRejected planner.recorded start (memory, record) call violation ↔
      FirstRejected planner start memory call violation := by
  simp only [FirstRejected, accepted_recorded, planner.answer_recorded]

end Calls

/-! ## The benchmark -/

/-- The numbers of partitions that the planner is asked about in a benchmark. -/
def asked (first last : Nat) (memory : σ) : List Nat :=
  (run planner.recorded seconds first last (memory, [])).2.2

/-- The report on a planner that is asked about a count of numbers of partitions. -/
def reportOf (start : Workload) (memory : σ) (count : Nat) : Report where
  planner := planner.name
  entries := (List.range count).map fun call =>
    describe seconds (start.larger call) (planner.answer start memory call)

theorem run_zero (last : Nat) (memory : σ) :
    run planner seconds 0 last memory = (.error (.invalidSize ⟨0⟩), memory) := rfl

/-- A benchmark that starts with at least one partition ends with a report on all numbers or with the
first defect. A record of the calls changes nothing, and has all numbers up to that end. -/
theorem run_cases (start : Workload) (last : Nat) (memory : σ) :
    (∀ call, start.partitions + call ≤ last → Accepted planner start memory call) ∧
        (run planner seconds start.partitions last memory).1 =
          .ok (reportOf planner seconds start memory (last + 1 - start.partitions)) ∧
        run planner.recorded seconds start.partitions last (memory, []) =
          (.ok (reportOf planner seconds start memory (last + 1 - start.partitions)),
            planner.memoryAfter start memory (last + 1 - start.partitions),
            List.range' start.partitions (last + 1 - start.partitions)) ∨
      ∃ call violation, start.partitions + call ≤ last ∧
        FirstRejected planner start memory call violation ∧
        (run planner seconds start.partitions last memory).1 =
          .error (.defective (start.partitions + call) violation) ∧
        run planner.recorded seconds start.partitions last (memory, []) =
          (.error (.defective (start.partitions + call) violation),
            planner.memoryAfter start memory (call + 1),
            List.range' start.partitions (call + 1)) := by
  have plain := entries_cases planner seconds start memory (last + 1 - start.partitions)
  have kept := entries_cases planner.recorded seconds start (memory, []) (last + 1 - start.partitions)
  simp only [accepted_recorded, firstRejected_recorded, planner.answer_recorded,
    planner.memoryAfter_recorded, List.nil_append] at kept
  obtain ⟨all, made⟩ | ⟨call, less, violation, rejected, made⟩ := plain
  · obtain ⟨-, recorded⟩ | ⟨call, less, _, rejected, -⟩ := kept
    · refine .inl ⟨fun call within => all call (by omega), ?_, ?_⟩
      · rw [run, made]
        rfl
      · rw [run, recorded]
        rfl
    · exact absurd (all call less) rejected.not_accepted
  · obtain ⟨all, -⟩ | ⟨other, -, others, rejectedOther, recorded⟩ := kept
    · exact absurd (all call less) rejected.not_accepted
    · obtain ⟨rfl, rfl⟩ := rejected.unique rejectedOther
      refine .inr ⟨call, violation, by omega, rejected, ?_, ?_⟩
      · rw [run, made]
        rfl
      · rw [run, recorded]
        rfl

/-- The entries of a report have the numbers of partitions in ascending order, none left out. -/
theorem partitions_reportOf (start : Workload) (memory : σ) (count : Nat) :
    (reportOf planner seconds start memory count).entries.map Entry.partitions =
      List.range' start.partitions count := by
  rw [reportOf, List.map_map, List.range'_eq_map_range]
  rfl

theorem consistent_reportOf {start : Workload} {memory : σ} {count : Nat}
    (all : ∀ call < count, Accepted planner start memory call) :
    ∀ entry ∈ (reportOf planner seconds start memory count).entries, entry.Consistent := by
  intro entry mem
  obtain ⟨call, less, rfl⟩ := List.mem_map.mp mem
  exact consistent_describe seconds (all call (List.mem_range.mp less))

/-- Whatever a planner answers and remembers, a benchmark is consistent. If it starts with zero
partitions it fails for that, and the planner is asked nothing; otherwise it never fails for a number of
partitions. It shows a defect exactly if there is a first answer that the validator rejects, and then the
planner is asked for nothing larger. It has a report exactly if every answer is accepted, and then the
report has one entry for each number in ascending order, whose numbers are consistent. -/
theorem run_consistent (last : Nat) (memory : σ) :
    (run planner seconds 0 last memory = (.error (.invalidSize ⟨0⟩), memory) ∧
      asked planner seconds 0 last memory = []) ∧
    ∀ start : Workload,
      (run planner.recorded seconds start.partitions last (memory, [])).1 =
        (run planner seconds start.partitions last memory).1 ∧
      (∀ error, (run planner seconds start.partitions last memory).1 ≠ .error (.invalidSize error)) ∧
      (∀ n violation,
        (run planner seconds start.partitions last memory).1 = .error (.defective n violation) ↔
          ∃ call, n = start.partitions + call ∧ n ≤ last ∧
            FirstRejected planner start memory call violation) ∧
      (∀ n violation,
        (run planner seconds start.partitions last memory).1 = .error (.defective n violation) →
          asked planner seconds start.partitions last memory =
            List.range' start.partitions (n + 1 - start.partitions)) ∧
      (∀ report, (run planner seconds start.partitions last memory).1 = .ok report ↔
        (∀ call, start.partitions + call ≤ last → Accepted planner start memory call) ∧
          report = reportOf planner seconds start memory (last + 1 - start.partitions)) ∧
      (∀ report, (run planner seconds start.partitions last memory).1 = .ok report →
        asked planner seconds start.partitions last memory =
            List.range' start.partitions (last + 1 - start.partitions) ∧
          report.entries.map Entry.partitions =
            List.range' start.partitions (last + 1 - start.partitions) ∧
          ∀ entry ∈ report.entries, entry.Consistent) := by
  refine ⟨⟨run_zero planner seconds last memory, rfl⟩, fun start => ?_⟩
  unfold asked
  obtain ⟨all, made, recorded⟩ | ⟨call, violation, within, rejected, made, recorded⟩ :=
    run_cases planner seconds start last memory
  · rw [made, recorded]
    refine ⟨rfl, by simp, ?_, by simp, ?_, ?_⟩
    · intro n violation
      simp only [reduceCtorEq, false_iff, not_exists, not_and]
      rintro call rfl within rejected
      exact rejected.not_accepted (all call within)
    · intro report
      rw [Except.ok.injEq, eq_comm]
      exact (and_iff_right all).symm
    · rintro report ⟨⟩
      exact ⟨rfl, partitions_reportOf planner seconds start memory _,
        consistent_reportOf planner seconds fun call less => all call (by omega)⟩
  · rw [made, recorded]
    refine ⟨rfl, by simp, ?_, ?_, ?_, by simp⟩
    · intro n other
      constructor
      · rintro ⟨⟩
        exact ⟨call, rfl, within, rejected⟩
      · rintro ⟨later, rfl, -, rejectedLater⟩
        obtain ⟨rfl, rfl⟩ := rejected.unique rejectedLater
        rfl
    · rintro n other ⟨⟩
      rw [Nat.add_assoc, Nat.add_sub_cancel_left]
    · intro report
      simp only [reduceCtorEq, false_iff, not_and]
      intro all
      exact absurd (all call within) rejected.not_accepted

/-- A planner that answers for one and two partitions has both in its report; one that answers every
time with the schedule of one partition is stopped at two, and not asked about three. -/
theorem scripted_benchmarks_consistent :
    (run (.scripted "script") (fun _ => 0) 1 2
        [⟨1, [⟨[.diagonal 0]⟩]⟩, ⟨2, [⟨[.cross 0 1]⟩, ⟨[.diagonal 0, .diagonal 1]⟩]⟩]).1 =
      .ok ⟨"script", [⟨1, 1, 1, 1, 0⟩, ⟨2, 3, 2, 2, 0⟩]⟩ ∧
    Entry.Consistent ⟨2, 3, 2, 2, 0⟩ ∧
    (run (.scripted "script") (fun _ => 0) 1 3 [⟨1, [⟨[.diagonal 0]⟩]⟩]).1 =
      .error (.defective 2 (.missing (.cross 0 1))) ∧
    asked (.scripted "script") (fun _ => 0) 1 3 [⟨1, [⟨[.diagonal 0]⟩]⟩] = [1, 2] := by
  have both : (run (.scripted "script") (fun _ => 0) 1 2
      [⟨1, [⟨[.diagonal 0]⟩]⟩, ⟨2, [⟨[.cross 0 1]⟩, ⟨[.diagonal 0, .diagonal 1]⟩]⟩]).1 =
        .ok ⟨"script", [⟨1, 1, 1, 1, 0⟩, ⟨2, 3, 2, 2, 0⟩]⟩ := rfl
  have stopped : (run (.scripted "script") (fun _ => 0) 1 3 [⟨1, [⟨[.diagonal 0]⟩]⟩]).1 =
      .error (.defective 2 (.missing (.cross 0 1))) := rfl
  obtain ⟨-, -, -, -, -, report⟩ := (run_consistent (.scripted "script") (fun _ => 0) 2
    [⟨1, [⟨[.diagonal 0]⟩]⟩, ⟨2, [⟨[.cross 0 1]⟩, ⟨[.diagonal 0, .diagonal 1]⟩]⟩]).2 ⟨1, by decide⟩
  obtain ⟨-, -, -, defect, -⟩ := (run_consistent (.scripted "script") (fun _ => 0) 3
    [⟨1, [⟨[.diagonal 0]⟩]⟩]).2 ⟨1, by decide⟩
  exact ⟨both, (report _ both).2.2 _ (by simp), stopped, defect _ _ stopped⟩

end Benchmark
end AllPairs
