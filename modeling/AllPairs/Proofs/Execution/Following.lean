import AllPairs.Proofs.Execution.InOrder
import AllPairs.Proofs.Execution.Session
import Mathlib.Data.List.TakeWhile

/-!
# Both executors follow the schedule

Whichever executor performs a schedule, its batches are granted up to the first one that is not
disjoint, the jobs of each granted batch are called once and their results handed over together, and
the run is refused at that first batch, if there is one. The sequential executor does so in order; a
pool does so in every interleaving, each of which comes to an end.

A machine that performs a schedule is a session with one request, so what holds of sessions holds of
machines.
-/

namespace AllPairs

namespace Schedule

/-- The schedule up to the first batch that is not disjoint. -/
def granted (schedule : Schedule) : Schedule :=
  { schedule with batches := schedule.batches.takeWhile fun batch => decide batch.Disjoint }

theorem Disjoint.granted_eq {schedule : Schedule} (disjoint : schedule.Disjoint) :
    schedule.granted = schedule := by
  have all : schedule.batches.takeWhile (fun batch => decide batch.Disjoint) = schedule.batches := by
    rw [List.takeWhile_eq_self_iff]
    intro batch mem
    exact decide_eq_true (disjoint batch mem)
  rw [granted, all]

end Schedule

namespace Execution

variable {ε ω : Type} {perform : Comparison ω} {schedule : Schedule}

/-! ## The batch that is refused -/

/-- The first batch that is not disjoint, if the first one of all has the given index. -/
def firstClash? : Nat → List Batch → Option Refusal
  | _, [] => none
  | index, batch :: rest =>
    if batch.Disjoint then firstClash? (index + 1) rest else some ⟨index, batch⟩

theorem firstClash?_eq_none_iff {index : Nat} {batches : List Batch} :
    firstClash? index batches = none ↔ ∀ batch ∈ batches, batch.Disjoint := by
  induction batches generalizing index with
  | nil => simp [firstClash?]
  | cons batch batches ih =>
    by_cases disjoint : batch.Disjoint
    · simp [firstClash?, disjoint, ih]
    · simp [firstClash?, disjoint]

/-- Every executor is stopped at the same batch. -/
theorem refusal_performBatches (executor : Executor ε ω) (perform : Comparison ω) (index : Nat)
    (batches : List Batch) (state : ε) (world : ω) :
    (performBatches executor perform index batches state world).refusal =
      firstClash? index batches := by
  induction batches generalizing index state world with
  | nil => rfl
  | cons batch batches ih =>
    by_cases disjoint : batch.Disjoint
    · simp [performBatches, firstClash?, disjoint, ih]
    · simp [performBatches, firstClash?, disjoint]

/-! ## Runs that follow a schedule -/

/-- The calls are those that the run made of the comparison, and their results are what it handed
over. -/
structure Run.Made (perform : Comparison ω) (start : ω) (calls : List (Call ω)) (run : Run ε ω) :
    Prop where
  caller : ∀ call ∈ calls, call.ticket.job.perform = perform
  history : Leads calls start run.world
  results : run.outcomes.flatten = calls.map Call.result

/-- The run granted the batches of the schedule up to the first one that is not disjoint. For each of
them it called every job once and handed over the results, which is filed in `archive`; at that first
one it was refused. -/
structure Run.Follows (perform : Comparison ω) (schedule : Schedule) (start : ω)
    (archive : List (List (Call ω))) (run : Run ε ω) : Prop where
  jobs : List.Forall₂ (fun tickets calls => (calls.map Call.ticket).Perm tickets)
    (jobsOf perform schedule.granted) archive
  outcomes : run.outcomes = archive.map (List.map Call.result)
  history : Leads archive.flatten start run.world
  refusal : run.refusal = firstClash? 0 schedule.batches

theorem perform_of_mem_jobsOf {tickets : List (Ticket ω)} {ticket : Ticket ω}
    (group : tickets ∈ jobsOf perform schedule) (mem : ticket ∈ tickets) :
    ticket.job.perform = perform := by
  obtain ⟨index, below, rfl⟩ := List.mem_mapIdx.mp group
  exact perform_of_mem_ticketsOf mem

@[simp]
theorem length_jobsOf (perform : Comparison ω) (schedule : Schedule) :
    (jobsOf perform schedule).length = schedule.size :=
  List.length_mapIdx

/-- Performing a schedule as the only request makes a group of every granted batch. -/
theorem groups_singleton_execute (perform : Comparison ω) (schedule : Schedule) :
    Request.groups [.execute perform schedule.batches] =
      (jobsOf perform schedule.granted, []) := by
  rw [Request.groups, List.flatMap_singleton, groups_execute]
  simp only [Nat.zero_add]
  rfl

namespace Run.Follows

variable {start : ω} {archive : List (List (Call ω))} {run : Run ε ω}

theorem perm_jobs (h : run.Follows perform schedule start archive) :
    (archive.flatten.map Call.ticket).Perm (jobsOf perform schedule.granted).flatten :=
  Workshop.perm_flatten h.jobs

/-- The tasks of the granted batches were performed, each as often as it is listed. -/
theorem perm_tasks (h : run.Follows perform schedule start archive) :
    (archive.flatten.map fun call => call.ticket.task).Perm schedule.granted.tasks := by
  have tasks := h.perm_jobs.map Ticket.task
  rwa [List.map_map, map_task_jobsOf] at tasks

theorem made (h : run.Follows perform schedule start archive) :
    run.Made perform start archive.flatten where
  caller := by
    intro call mem
    have listed := h.perm_jobs.mem_iff.mp (List.mem_map_of_mem mem)
    obtain ⟨tickets, group, inside⟩ := List.mem_flatten.mp listed
    exact perform_of_mem_jobsOf group inside
  history := h.history
  results := by rw [h.outcomes, List.map_flatten]

theorem length_outcomes (h : run.Follows perform schedule start archive) :
    run.outcomes.length = schedule.granted.size := by
  rw [h.outcomes, List.length_map, ← h.jobs.length_eq, length_jobsOf]

/-- As many results were handed over as there are tasks in the granted batches. -/
theorem length_results (h : run.Follows perform schedule start archive) :
    run.outcomes.flatten.length = schedule.granted.taskCount := by
  have tasks := h.perm_tasks.length_eq
  rw [List.length_map] at tasks
  rw [h.made.results, List.length_map, tasks, Schedule.taskCount]

/-- A disjoint schedule is granted as a whole, and the run has a report. -/
theorem report_of_disjoint (h : run.Follows perform schedule start archive)
    (disjoint : schedule.Disjoint) : run.report = .ok (.ofOutcomes run.outcomes) := by
  have accepted : run.refusal = none := h.refusal.trans (firstClash?_eq_none_iff.mpr disjoint)
  rw [Run.report, accepted]

end Run.Follows

/-- The sequential executor follows the schedule. -/
theorem exists_follows_sequential (perform : Comparison ω) (schedule : Schedule) (world : ω) :
    ∃ archive, (execute (Sequential.executor ω) perform schedule .initial world).Follows perform
      schedule world archive := by
  obtain ⟨archive, last, new, after, obeyed, groups, all, leads⟩ :=
    obey_sequential (Request.execute perform schedule.batches).orders 0 [] world
  have run := performBatches_eq_obey (Sequential.executor ω) perform 0 schedule.batches .initial world
  have jobs := groups_singleton_execute perform schedule
  rw [Request.groups, List.flatMap_singleton] at jobs
  rw [List.map_nil, jobs, Prod.mk.injEq, List.map_eq_nil_iff] at groups
  obtain ⟨listed, rfl⟩ := groups
  rw [List.append_nil, List.nil_append] at all
  rw [show Sequential.initial = ⟨([] : List (Call ω)).map Call.result⟩ from rfl, obeyed,
    Prod.mk.injEq, Prod.mk.injEq] at run
  obtain ⟨outcomes, -, rfl⟩ := run
  refine ⟨archive, ?_, outcomes.symm, all ▸ leads, refusal_performBatches ..⟩
  rw [← listed, List.forall₂_map_left_iff, List.forall₂_same]
  intro calls _
  exact .refl _

/-! ## The pool -/

namespace Driver

/-- The driver has come to the end of the schedule or was stopped in front of a batch. -/
def Stopped (driver : Driver ω) : Prop :=
  driver.Ended ∨ ∃ refusal, driver = refused refusal

/-- The batch at which the driver was stopped or is going to be. -/
def clash? : Driver ω → Option Refusal
  | between index rest => firstClash? index rest
  | dispatching index _ rest => firstClash? (index + 1) rest
  | awaiting index rest => firstClash? (index + 1) rest
  | refused refusal => some refusal

/-- The batch in front of which the driver was stopped. -/
def refusal? : Driver ω → Option Refusal
  | refused refusal => some refusal
  | _ => none

theorem Stopped.refusal?_eq {driver : Driver ω} (stopped : driver.Stopped) :
    driver.refusal? = driver.clash? := by
  obtain ⟨index, rfl⟩ | ⟨refusal, rfl⟩ := stopped <;> rfl

/-- The driver as a client that performs the rest of the schedule. -/
def toClient (perform : Comparison ω) : Driver ω → Client ω
  | between index rest => .ready index [.execute perform rest]
  | dispatching index todo rest => .dispatching index todo [.give .await, .execute perform rest]
  | awaiting index rest => .awaiting (index + 1) [.execute perform rest]
  | refused refusal => .ready refusal.index []

end Driver

namespace Machine

variable {machine machine' : Machine ω}

/-- The machine as a session whose only request is to perform the schedule. -/
def toSession (perform : Comparison ω) (machine : Machine ω) : Session ω :=
  ⟨machine.driver.toClient perform, machine.shop⟩

/-- What has come of the schedule so far. -/
def run (machine : Machine ω) : Run (Pool (Job ω)) ω :=
  ⟨machine.shop.outcomes, machine.driver.refusal?, machine.shop.pool.map Ticket.job,
    machine.shop.world⟩

/-- Every step of a machine is made of steps of the session. -/
theorem Step.toSession (step : Step perform machine machine') :
    Relation.TransGen Session.Step (machine.toSession perform) (machine'.toSession perform) := by
  -- The driver takes a batch at once and waits when all of it is dispatched; the client of a session
  -- needs two steps for either.
  cases step with
  | refuse clash => exact .single (.refuse clash)
  | take disjoint => exact .head (.accept disjoint) (.single .dispatch)
  | dispatch => exact .single .spawn
  | await => exact .head .dispatched (.single .await)
  | receive incomplete move => exact .single (.receive incomplete move)
  | pass complete => exact .single (.pass complete)
  | work move => exact .single (.work move)

theorem Reachable.toSession {start : Machine ω} (reachable : Reachable perform start machine) :
    Session.Reachable (start.toSession perform) (machine.toSession perform) := by
  induction reachable with
  | refl => exact .refl
  | tail _ step ih => exact ih.trans step.toSession.to_reflTransGen

/-- Steps do not change at which batch the run is going to be refused. -/
theorem Step.clash?_eq (step : Step perform machine machine') :
    machine'.driver.clash? = machine.driver.clash? := by
  cases step with
  | refuse clash => simp [Driver.clash?, firstClash?, clash]
  | take disjoint => simp [Driver.clash?, firstClash?, disjoint]
  | dispatch => rfl
  | await => rfl
  | receive => rfl
  | pass => rfl
  | work => rfl

theorem Reachable.clash?_eq {workers : Nat} {pos : 0 < workers} {world : ω}
    (reachable : Reachable perform (initial schedule workers pos world) machine) :
    machine.driver.clash? = firstClash? 0 schedule.batches := by
  induction reachable with
  | refl => rfl
  | tail _ step ih => exact step.clash?_eq.trans ih

theorem Reachable.sound_toSession {workers : Nat} {pos : 0 < workers} {world : ω}
    (reachable : Reachable perform (initial schedule workers pos world) machine) :
    (machine.toSession perform).Sound world [.execute perform schedule.batches] :=
  Session.Reachable.sound reachable.toSession

/-- A machine that has stopped has followed the schedule, and its history is the archive. -/
theorem Reachable.follows {workers : Nat} {pos : 0 < workers} {world : ω}
    (reachable : Reachable perform (initial schedule workers pos world) machine)
    (stopped : machine.driver.Stopped) :
    ∃ archive, machine.run.Follows perform schedule world archive ∧
      machine.shop.performed = archive.flatten := by
  obtain ⟨past, current, archive, done, accounts, history, groups⟩ := reachable.sound_toSession
  have upcoming : (machine.toSession perform).client.upcoming current = ([], current) := by
    obtain ⟨index, stand⟩ | ⟨refusal, stand⟩ := stopped <;> rw [Machine.toSession, stand] <;> rfl
  rw [upcoming, List.append_nil, groups_singleton_execute, Prod.mk.injEq] at groups
  obtain ⟨rfl, rfl⟩ := groups
  -- Nothing was dispatched since the last barrier, so nothing was performed since.
  have none : done = [] := by
    have nothing := List.perm_nil.mp accounts.current
    rw [List.append_eq_nil_iff, List.append_eq_nil_iff, List.map_eq_nil_iff] at nothing
    exact nothing.2.2
  have performed : machine.shop.performed = archive.flatten := by
    have all := accounts.performed
    rwa [none, List.append_nil] at all
  refine ⟨archive, ⟨accounts.past, accounts.outcomes, ?_, ?_⟩, performed⟩
  · rw [← performed]
    exact history
  · exact stopped.refusal?_eq.trans reachable.clash?_eq

/-- A machine in which nothing can happen any more has stopped. -/
theorem Reachable.stopped_of_stuck {workers : Nat} {pos : 0 < workers} {world : ω}
    (reachable : Reachable perform (initial schedule workers pos world) machine)
    (stuck : ∀ next, ¬ Step perform machine next) : machine.driver.Stopped := by
  obtain ⟨past, current, archive, done, accounts, -, -⟩ := reachable.sound_toSession
  obtain ⟨driver, shop⟩ := machine
  cases driver with
  | between index rest =>
    cases rest with
    | nil => exact .inl ⟨index, rfl⟩
    | cons batch rest =>
      by_cases disjoint : batch.Disjoint
      · exact absurd (.take disjoint) (stuck _)
      · exact absurd (.refuse disjoint) (stuck _)
  | dispatching index todo rest =>
    cases todo with
    | nil => exact absurd .await (stuck _)
    | cons ticket todo => exact absurd .dispatch (stuck _)
  | awaiting index rest =>
    by_cases incomplete : shop.received.length < shop.pool.dispatched
    · obtain ⟨shop', move | move⟩ := Workshop.exists_move accounts.balanced incomplete
      · exact absurd (.work move) (stuck _)
      · exact absurd (.receive incomplete move) (stuck _)
    · exact absurd (.pass incomplete) (stuck _)
  | refused refusal => exact .inr ⟨refusal, rfl⟩

theorem Step.effort_lt (step : Step perform machine machine') :
    (machine'.toSession perform).effort < (machine.toSession perform).effort :=
  Session.effort_lt_of_transGen step.toSession

/-- Every run of a machine ends, and it has stopped then: what holds of every machine that has stopped
is where every run leads. -/
theorem everyRun {post : Machine ω → Prop} {workers : Nat} {pos : 0 < workers} {world : ω}
    (holds : ∀ machine, Reachable perform (initial schedule workers pos world) machine →
      machine.driver.Stopped → post machine) :
    EveryRun (Step perform) post (initial schedule workers pos world) where
  finite := acc_of_work (fun _ _ step => step.effort_lt) _
  ends := by
    intro last reached stuck
    have reachable : Reachable perform (initial schedule workers pos world) last := reached
    exact holds last reachable (reachable.stopped_of_stuck stuck)

end Machine

/-- So does the executor of a pool, since it is one of the interleavings. -/
theorem exists_follows_pool (perform : Comparison ω) (schedule : Schedule) {workers : Nat}
    (pos : 0 < workers) (world : ω) :
    ∃ archive, (execute (Pool.executor ω) perform schedule (.ofWorkers workers pos) world).Follows
      perform schedule world archive := by
  obtain ⟨machine, reachable, shows⟩ := exists_reachable_execute perform schedule workers pos world
  have stopped : machine.driver.Stopped := by
    cases refusal : (execute (Pool.executor ω) perform schedule (.ofWorkers workers pos)
        world).refusal with
    | none => exact .inl (shows.returned refusal)
    | some refused => exact .inr ⟨refused, shows.refused refused refusal⟩
  obtain ⟨archive, follows, -⟩ := reachable.follows stopped
  refine ⟨archive, follows.jobs, ?_, ?_, refusal_performBatches ..⟩
  · rw [← follows.outcomes]
    exact shows.outcomes.symm
  · rw [← shows.world]
    exact follows.history

end Execution
end AllPairs
