import AllPairs.CommandLine.Run
import AllPairs.Proofs.Document.PlanRoundTrip
import AllPairs.Proofs.Planning.GreedyLoop
import AllPairs.Proofs.Planning.Tournament

/-!
# Printed plans pass the check

Checking a file succeeds on the exact covers of the workload and on nothing else. A planned schedule is
one, its JSON text is read as what was planned, and the line break that ends the output is a blank. The
validator does not look at the number of partitions that a schedule states, so a schedule fits only one
size because the check compares that number first.
-/

namespace AllPairs

open Json

theorem Workload.ofSize_eq_ok_iff {n : Nat} {workload : Workload} :
    ofSize n = .ok workload ↔ workload.partitions = n := by
  constructor
  · intro sized
    unfold ofSize at sized
    split at sized
    · cases sized
      rfl
    · cases sized
  · rintro rfl
    exact workload.ofSize_partitions

namespace ExactCover

variable {workload : Workload} {schedule : Schedule}

/-- All partitions of a cover are partitions of the workload. -/
theorem inWords (cover : ExactCover workload schedule)
    (stated : schedule.partitions = workload.partitions) (word : workload.partitions < wordSize) :
    schedule.InWords := by
  refine ⟨stated ▸ word, ?_⟩
  intro batch hb task ht
  have contained := cover.contains (List.mem_flatMap.mpr ⟨batch, hb, ht⟩)
  have small : ∀ p ∈ task.partitions, p < wordSize := fun p hp =>
    (workload.lt_of_contains contained hp).trans word
  cases task with
  | diagonal p => exact small p (List.mem_singleton_self p)
  | cross a b => exact ⟨small a List.mem_cons_self, small b (List.mem_pair.mpr (.inr rfl))⟩

end ExactCover

namespace Algorithm

variable (config : PlanConfig) (workload : Workload) (algorithm : Algorithm)

/-- Whichever algorithm is chosen, its plans are exact covers of the workload. -/
theorem plan_fulfils : Fulfils config.maxWidth workload (algorithm.plan config workload) := by
  cases algorithm with
  | greedy => exact Greedy.plan_fulfils config.maxWidth workload
  | roundRobin => exact RoundRobin.plan_fulfils config.maxWidth workload

/-- Planning never fails. -/
theorem schedule_planner :
    (algorithm.planner config).schedule workload.partitions () =
      .ok (algorithm.plan config workload, ()) :=
  Planner.schedule_pure (algorithm.plan_fulfils config workload).accepted

end Algorithm

/-- The text of a schedule is read to its end if a line break follows. -/
theorem Schedule.ofJson_line {schedule : Schedule} (words : schedule.InWords) :
    Schedule.ofJson (octets (schedule.toJson ++ "\n")) = .ok schedule := by
  have line : Blank (octets "\n") := blank_newLine 0
  have read := (Schedule.read_legible words 0).document blank_nil line
  rwa [List.nil_append, ← octets_append] at read

namespace CommandLine

section Except

variable {α β ε ε' : Type}

theorem mapError_eq_ok_iff {result : Except ε α} {f : ε → ε'} {value : α} :
    result.mapError f = .ok value ↔ result = .ok value := by
  cases result <;> simp [Except.mapError]

theorem bind_eq_ok_iff {result : Except ε α} {f : α → Except ε β} {value : β} :
    result >>= f = .ok value ↔ ∃ first, result = .ok first ∧ f first = .ok value := by
  cases result <;> simp [bind, Except.bind]

end Except

/-! ## What the check accepts -/

/-- The content of a file is read as a schedule that states this number of partitions and covers their
workload exactly. -/
structure Covers (content : Except FileFault Octets) (partitions : Nat) (schedule : Schedule) :
    Prop where
  pos : 0 < partitions
  read : ∃ octets, content = .ok octets ∧ Schedule.ofJson octets = .ok schedule
  stated : schedule.partitions = partitions
  cover : ExactCover ⟨partitions, pos⟩ schedule

variable {content : Except FileFault Octets} {partitions : Nat} {schedule : Schedule} {name : String}

theorem Covers.unique {other : Nat} {schedule' : Schedule} (covers : Covers content partitions schedule)
    (covers' : Covers content other schedule') : other = partitions := by
  obtain ⟨octets, found, read⟩ := covers.read
  obtain ⟨octets', found', read'⟩ := covers'.read
  rw [found, Except.ok.injEq] at found'
  rw [← found', read, Except.ok.injEq] at read'
  rw [← covers.stated, ← covers'.stated, read']

theorem checked_eq_ok_iff :
    checked partitions name content = .ok schedule ↔ Covers content partitions schedule := by
  simp only [checked, bind_eq_ok_iff, mapError_eq_ok_iff]
  constructor
  · rintro ⟨workload, sized, octets, found, schedule', read, accepted⟩
    obtain rfl := Workload.ofSize_eq_ok_iff.mp sized
    -- The validator runs only if the schedule states the right number.
    by_cases stated : schedule'.partitions = workload.partitions
    · rw [if_neg (not_not.mpr stated), bind_eq_ok_iff] at accepted
      obtain ⟨_, valid, ⟨⟩⟩ := accepted
      rw [mapError_eq_ok_iff, Schedule.validate_eq_ok_iff] at valid
      exact ⟨workload.pos, ⟨octets, found, read⟩, stated, valid⟩
    · rw [if_pos stated] at accepted
      cases accepted
  · rintro ⟨pos, ⟨octets, found, read⟩, stated, cover⟩
    refine ⟨⟨partitions, pos⟩, Workload.ofSize_of_pos pos, octets, found, schedule, read, ?_⟩
    rw [if_neg (not_not.mpr stated), bind_eq_ok_iff]
    exact ⟨(), mapError_eq_ok_iff.mpr (Schedule.validate_eq_ok_iff.mpr cover), rfl⟩

variable {surroundings : Surroundings} {file : String}

/-- The check prints how many tasks and batches the schedule has. -/
theorem outcome_check (covers : Covers (surroundings.file file) partitions schedule) :
    (Command.check partitions file).outcome surroundings =
      .success (file ++ ": valid, " ++ toString (partitions * (partitions + 1) / 2) ++ " tasks in "
        ++ toString schedule.size ++ " batches\n") := by
  have count : schedule.taskCount = partitions * (partitions + 1) / 2 :=
    covers.cover.taskCount_eq.trans (Workload.size_eq _)
  simp only [Command.outcome, checked_eq_ok_iff.mpr covers, count]

/-- What is not a cover fails the check. -/
theorem exit_check (other : ∀ schedule, ¬ Covers (surroundings.file file) partitions schedule) :
    ((Command.check partitions file).outcome surroundings).exit = 1 := by
  rw [Command.outcome]
  cases result : checked partitions file (surroundings.file file) with
  | error message => rfl
  | ok schedule => exact absurd (checked_eq_ok_iff.mp result) (other schedule)

theorem exit_check_eq_zero_iff :
    ((Command.check partitions file).outcome surroundings).exit = 0 ↔
      ∃ schedule, Covers (surroundings.file file) partitions schedule := by
  constructor
  · intro passed
    by_contra none
    rw [exit_check (not_exists.mp none)] at passed
    cases passed
  · rintro ⟨schedule, covers⟩
    rw [outcome_check covers]
    rfl

/-! ## What is printed -/

theorem outcome_plan (algorithm : Algorithm) (config : PlanConfig) (workload : Workload) :
    (Command.plan workload.partitions algorithm config .json).outcome surroundings =
      .success ((algorithm.plan config workload).toJson ++ "\n") := by
  rw [Command.outcome, algorithm.schedule_planner]

theorem covers_planned {algorithm : Algorithm} {config : PlanConfig} {workload : Workload}
    (word : workload.partitions < wordSize)
    (kept : content = .ok (octets ((algorithm.plan config workload).toJson ++ "\n"))) :
    Covers content workload.partitions (algorithm.plan config workload) := by
  have fulfils := algorithm.plan_fulfils config workload
  have words := fulfils.cover.inWords fulfils.partitions word
  exact ⟨workload.pos, ⟨_, kept, Schedule.ofJson_line words⟩, fulfils.partitions, fulfils.cover⟩

/-! ## Main result -/

/-- The plan that is printed as JSON, for any positive number of partitions that fits into a word, passes
the check for this number and fails it for every other one. In general the check passes exactly the
files that are read as an exact cover of the workload. -/
theorem printed_plan_passes_check :
    (∀ partitions, 0 < partitions → partitions < wordSize →
      ∀ (algorithm : Algorithm) (config : PlanConfig) (before after : Surroundings) (file : String),
      after.file file =
        .ok (octets ((Command.plan partitions algorithm config .json).outcome before).output) →
      ∃ schedule,
        (algorithm.planner config).schedule partitions () = .ok (schedule, ()) ∧
        (Command.plan partitions algorithm config .json).outcome before =
          .success (schedule.toJson ++ "\n") ∧
        (Command.check partitions file).outcome after =
          .success (file ++ ": valid, " ++ toString (partitions * (partitions + 1) / 2)
            ++ " tasks in " ++ toString schedule.size ++ " batches\n") ∧
        ∀ other, other ≠ partitions → ((Command.check other file).outcome after).exit = 1) ∧
    ∀ (surroundings : Surroundings) (partitions : Nat) (file : String),
      ((Command.check partitions file).outcome surroundings).exit = 0 ↔
        ∃ schedule, Covers (surroundings.file file) partitions schedule := by
  refine ⟨?_, fun _ _ _ => exit_check_eq_zero_iff⟩
  intro partitions pos word algorithm config before after file kept
  let workload : Workload := ⟨partitions, pos⟩
  have printed : (Command.plan partitions algorithm config .json).outcome before =
      .success ((algorithm.plan config workload).toJson ++ "\n") :=
    outcome_plan algorithm config workload
  rw [printed] at kept
  have covers : Covers (after.file file) partitions (algorithm.plan config workload) :=
    covers_planned word kept
  refine ⟨_, algorithm.schedule_planner config workload, printed, outcome_check covers, ?_⟩
  intro other different
  apply exit_check
  intro schedule covers'
  exact different (covers.unique covers')

/-- The plan of three partitions in batches of at most two tasks is no plan of two. -/
theorem three_partitions_plan_passes_check :
    let config : PlanConfig := ⟨.atMost 2 Nat.two_pos⟩
    let before : Surroundings := ⟨fun _ => .error .missing, fun _ => "", fun _ _ => 0⟩
    let after : Surroundings := { before with
      file := fun _ => .ok (octets ((Command.plan 3 .greedy config .json).outcome before).output) }
    0 < 3 ∧ 3 < wordSize ∧
    (Command.check 3 "plan.json").outcome after =
      .success "plan.json: valid, 6 tasks in 3 batches\n" ∧
    ((Command.check 2 "plan.json").outcome after).exit = 1 ∧
    ∃ schedule, Covers (after.file "plan.json") 3 schedule := by
  intro config before after
  have word : 3 < wordSize := by decide
  have size : (Algorithm.greedy.plan config ⟨3, Nat.succ_pos 2⟩).size = 3 := by decide +kernel
  obtain ⟨closes, passes⟩ := printed_plan_passes_check
  obtain ⟨schedule, planned, -, passed, others⟩ :=
    closes 3 (Nat.succ_pos 2) word .greedy config before after "plan.json" rfl
  rw [Algorithm.schedule_planner config ⟨3, Nat.succ_pos 2⟩] at planned
  cases planned
  rw [size] at passed
  refine ⟨Nat.succ_pos 2, word, passed, others 2 (by decide), (passes after 3 "plan.json").mp ?_⟩
  rw [passed]
  rfl

end CommandLine
end AllPairs
