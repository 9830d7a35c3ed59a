import AllPairs.Schedule.Violation

/-!
Planners: named ways to turn workloads into schedules, which may remember what they did before.
Planning a number of partitions checks what the planner answers; a schedule that does not cover
its workload is a defect of the planner.
-/

namespace AllPairs

/-- A way to schedule workloads, with a memory of type `σ`. -/
structure Planner (σ : Type) where
  name : String
  plan : Workload → σ → Schedule × σ

/-- Why a number of partitions has no schedule. -/
inductive PlanError where
  | invalidSize (error : InvalidSize)
  /-- The planner answered with a schedule that does not cover the workload. -/
  | defective (schedule : Schedule)
deriving DecidableEq

/-- What went wrong. -/
def PlanError.message : PlanError → String
  | invalidSize error => error.message
  | defective schedule => "Schedule is invalid: " ++ schedule.dump

namespace Planner

variable {σ : Type}

/-- The checked schedule of a number of partitions and the memory of the planner after it. The
planner is not asked about zero partitions. -/
def schedule (planner : Planner σ) (partitions : Nat) (memory : σ) :
    Except PlanError (Schedule × σ) :=
  match Workload.ofSize partitions with
  | .error error => .error (.invalidSize error)
  | .ok workload =>
    let (schedule, memory) := planner.plan workload memory
    match schedule.validate workload with
    | .error _ => .error (.defective schedule)
    | .ok () => .ok (schedule, memory)

/-- A planner without memory. -/
def pure (name : String) (plan : Workload → Schedule) : Planner Unit :=
  ⟨name, fun workload _ => (plan workload, ())⟩

/-- A planner that looks at no workload. It remembers the schedules that it has yet to answer
with, one for each call, and stays with the last one. -/
def scripted (name : String) : Planner (List Schedule) where
  name
  plan
    | _, [] => (⟨0, []⟩, [])
    | _, [last] => (last, [last])
    | _, schedule :: rest => (schedule, rest)

end Planner
end AllPairs
