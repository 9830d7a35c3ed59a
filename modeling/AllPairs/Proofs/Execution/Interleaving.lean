import AllPairs.Execution.Run
import AllPairs.Proofs.Disjointness
import AllPairs.Proofs.Execution.Workshop
import Mathlib.Data.List.Forall2
import Mathlib.Logic.Relation

/-!
# Every interleaving of a pool

The driver performs the batches of a schedule in turn: it refuses a batch that is not disjoint,
dispatches the tasks of any other one by one, and then receives results until there are as many as
tasks. All the while workers start queued jobs and finish running ones in any order. A machine is
the driver together with the workshop; its steps are those of either.

In every state that can be reached, whatever is in flight belongs to the batch at hand, and every
earlier occurrence was performed. Tasks of a disjoint batch are apart, so tasks that run at the same
time never share a partition.
-/

namespace AllPairs

/-- The task at an occurrence, if there is one. -/
def Schedule.taskAt? (schedule : Schedule) (occurrence : Execution.Occurrence) : Option Task :=
  schedule.batches[occurrence.batch]?.bind fun batch => batch.tasks[occurrence.position]?

/-- The occurrences of tasks in a schedule, batch by batch. -/
def Schedule.occurrences (schedule : Schedule) : List Execution.Occurrence :=
  (schedule.batches.mapIdx fun index batch =>
    (List.range batch.size).map (Execution.Occurrence.mk index)).flatten

namespace Execution

variable {ω : Type}

/-- The jobs of a batch. -/
def ticketsOf (perform : Comparison ω) (index : Nat) (batch : Batch) : List (Ticket ω) :=
  batch.tasks.mapIdx fun position task => ⟨⟨index, position⟩, ⟨task, perform⟩⟩

/-- Where the driver stands. -/
inductive Driver (ω : Type) where
  /-- About to take the next batch, which has the given index. -/
  | between (index : Nat) (rest : List Batch)
  /-- Dispatching the jobs of a batch, some of which are still to be dispatched. -/
  | dispatching (index : Nat) (todo : List (Ticket ω)) (rest : List Batch)
  /-- Waiting at the barrier for the results of a batch. -/
  | awaiting (index : Nat) (rest : List Batch)
  /-- Stopped in front of a batch that is not disjoint. -/
  | refused (refusal : Refusal)

namespace Driver

/-- The index of the batch at hand. -/
def index : Driver ω → Nat
  | between index _ => index
  | dispatching index _ _ => index
  | awaiting index _ => index
  | refused refusal => refusal.index

/-- Every batch was performed. -/
def Ended (driver : Driver ω) : Prop :=
  ∃ index, driver = between index []

end Driver

/-- A driver and the workshop that it drives. -/
structure Machine (ω : Type) where
  driver : Driver ω
  shop : Workshop ω

namespace Machine

/-- A pool of idle workers, and a driver in front of the first batch. -/
def initial (schedule : Schedule) (workers : Nat) (pos : 0 < workers) (world : ω) : Machine ω :=
  ⟨.between 0 schedule.batches, .opened (.ofWorkers workers pos) world⟩

/-- A step of the driver or of a worker. -/
inductive Step (perform : Comparison ω) : Machine ω → Machine ω → Prop where
  | refuse {shop : Workshop ω} {index : Nat} {batch : Batch} {rest : List Batch}
      (clash : ¬ batch.Disjoint) :
      Step perform ⟨.between index (batch :: rest), shop⟩ ⟨.refused ⟨index, batch⟩, shop⟩
  | take {shop : Workshop ω} {index : Nat} {batch : Batch} {rest : List Batch}
      (disjoint : batch.Disjoint) :
      Step perform ⟨.between index (batch :: rest), shop⟩
        ⟨.dispatching index (ticketsOf perform index batch) rest, shop⟩
  | dispatch {shop : Workshop ω} {index : Nat} {ticket : Ticket ω} {todo : List (Ticket ω)}
      {rest : List Batch} :
      Step perform ⟨.dispatching index (ticket :: todo) rest, shop⟩
        ⟨.dispatching index todo rest, shop.spawn ticket⟩
  | await {shop : Workshop ω} {index : Nat} {rest : List Batch} :
      Step perform ⟨.dispatching index [] rest, shop⟩ ⟨.awaiting index rest, shop⟩
  | receive {shop shop' : Workshop ω} {index : Nat} {rest : List Batch}
      (incomplete : shop.received.length < shop.pool.dispatched) (move : shop.Receives shop') :
      Step perform ⟨.awaiting index rest, shop⟩ ⟨.awaiting index rest, shop'⟩
  | pass {shop : Workshop ω} {index : Nat} {rest : List Batch}
      (complete : ¬ shop.received.length < shop.pool.dispatched) :
      Step perform ⟨.awaiting index rest, shop⟩ ⟨.between (index + 1) rest, shop.pass⟩
  | work {driver : Driver ω} {shop shop' : Workshop ω} (move : shop.Works shop') :
      Step perform ⟨driver, shop⟩ ⟨driver, shop'⟩

/-- A state that the machine gets to in some interleaving. -/
def Reachable (perform : Comparison ω) (start machine : Machine ω) : Prop :=
  Relation.ReflTransGen (Step perform) start machine

end Machine

/-! ## The jobs of a schedule -/

/-- The jobs of a schedule, batch by batch. -/
def jobsOf (perform : Comparison ω) (schedule : Schedule) : List (List (Ticket ω)) :=
  schedule.batches.mapIdx (ticketsOf perform)

section Jobs

variable {perform : Comparison ω} {schedule : Schedule}

theorem map_job_ticketsOf (perform : Comparison ω) (index : Nat) (batch : Batch) :
    (ticketsOf perform index batch).map Ticket.job =
      batch.tasks.map fun task => ⟨task, perform⟩ := by
  apply List.ext_getElem?
  intro position
  simp [ticketsOf, Function.comp_def]

theorem map_task_ticketsOf (perform : Comparison ω) (index : Nat) (batch : Batch) :
    (ticketsOf perform index batch).map Ticket.task = batch.tasks := by
  rw [show @Ticket.task ω = Job.task ∘ Ticket.job from rfl, ← List.map_map,
    map_job_ticketsOf, List.map_map]
  exact List.map_id _

theorem mem_ticketsOf {index : Nat} {batch : Batch} {ticket : Ticket ω}
    (mem : ticket ∈ ticketsOf perform index batch) :
    ticket.occurrence.batch = index ∧
      batch.tasks[ticket.occurrence.position]? = some ticket.task := by
  obtain ⟨position, below, rfl⟩ := List.mem_mapIdx.mp mem
  exact ⟨rfl, List.getElem?_eq_getElem below⟩

theorem getElem?_jobsOf (index : Nat) :
    (jobsOf perform schedule)[index]? =
      schedule.batches[index]?.map (ticketsOf perform index) := by
  simp [jobsOf]

/-- Every job performs the task at its occurrence. -/
theorem taskAt?_of_mem_jobsOf {index : Nat} {tickets : List (Ticket ω)}
    (found : (jobsOf perform schedule)[index]? = some tickets) {ticket : Ticket ω}
    (mem : ticket ∈ tickets) :
    ticket.occurrence.batch = index ∧ schedule.taskAt? ticket.occurrence = some ticket.task := by
  rw [getElem?_jobsOf, Option.map_eq_some_iff] at found
  obtain ⟨batch, hbatch, rfl⟩ := found
  obtain ⟨rfl, task⟩ := mem_ticketsOf mem
  exact ⟨rfl, by rw [Schedule.taskAt?, hbatch, Option.bind_some, task]⟩

theorem map_occurrence_ticketsOf (perform : Comparison ω) (index : Nat) (batch : Batch) :
    (ticketsOf perform index batch).map Ticket.occurrence =
      (List.range batch.size).map (Occurrence.mk index) := by
  apply List.ext_getElem
  · simp [ticketsOf, Batch.size]
  · intro position _ _
    simp [ticketsOf]

theorem map_occurrence_jobsOf (perform : Comparison ω) (schedule : Schedule) :
    (jobsOf perform schedule).flatten.map Ticket.occurrence = schedule.occurrences := by
  rw [List.map_flatten, jobsOf, Schedule.occurrences]
  congr 1
  apply List.ext_getElem
  · simp
  · intro index _ _
    simp [map_occurrence_ticketsOf]

theorem map_task_jobsOf (perform : Comparison ω) (schedule : Schedule) :
    (jobsOf perform schedule).flatten.map Ticket.task = schedule.tasks := by
  rw [List.map_flatten, jobsOf, Schedule.tasks, List.flatMap_def]
  congr 1
  apply List.ext_getElem
  · simp
  · intro index _ _
    simp [map_task_ticketsOf]

/-- No occurrence is listed twice. -/
theorem nodup_occurrences (schedule : Schedule) : schedule.occurrences.Nodup := by
  rw [Schedule.occurrences, List.nodup_flatten]
  constructor
  · intro places mem
    obtain ⟨index, below, rfl⟩ := List.mem_mapIdx.mp mem
    refine List.Nodup.map ?_ List.nodup_range
    intro position other same
    exact (Occurrence.mk.inj same).2
  · rw [List.pairwise_iff_getElem]
    intro first second _ _ before place hfirst hsecond
    simp only [List.getElem_mapIdx, List.mem_map] at hfirst hsecond
    obtain ⟨_, -, rfl⟩ := hfirst
    obtain ⟨_, -, same⟩ := hsecond
    have := (Occurrence.mk.inj same).1
    omega

end Jobs

/-! ## What holds in every state -/

/-- What was dispatched when the driver stands at a point of a schedule: `past` for the earlier
batches, and `current` for the batch at hand. -/
inductive Driver.At (perform : Comparison ω) (schedule : Schedule) :
    Driver ω → (past : List (List (Ticket ω))) → (current : List (Ticket ω)) → Prop where
  | between (index : Nat) :
      At perform schedule (.between index (schedule.batches.drop index))
        ((jobsOf perform schedule).take index) []
  | dispatching {index : Nat} {spawned todo : List (Ticket ω)}
      (jobs : (jobsOf perform schedule)[index]? = some (spawned ++ todo)) :
      At perform schedule (.dispatching index todo (schedule.batches.drop (index + 1)))
        ((jobsOf perform schedule).take index) spawned
  | awaiting {index : Nat} {tickets : List (Ticket ω)}
      (jobs : (jobsOf perform schedule)[index]? = some tickets) :
      At perform schedule (.awaiting index (schedule.batches.drop (index + 1)))
        ((jobsOf perform schedule).take index) tickets
  | refused {index : Nat} {batch : Batch} (found : schedule.batches[index]? = some batch)
      (clash : ¬ batch.Disjoint) :
      At perform schedule (.refused ⟨index, batch⟩) ((jobsOf perform schedule).take index) []

/-- The books of the workshop balance for the point at which the driver stands. -/
def Machine.Sound (perform : Comparison ω) (schedule : Schedule) (machine : Machine ω) : Prop :=
  ∃ past current archive done, machine.driver.At perform schedule past current ∧
    machine.shop.Accounts past current archive done

variable {perform : Comparison ω} {schedule : Schedule}

theorem Driver.At.exists_cons {index : Nat} {batch : Batch} {rest : List Batch}
    (h : schedule.batches.drop index = batch :: rest) :
    schedule.batches[index]? = some batch ∧ rest = schedule.batches.drop (index + 1) := by
  constructor
  · rw [← List.head?_drop, h, List.head?_cons]
  · rw [← List.tail_drop, h, List.tail_cons]

namespace Machine

variable {machine machine' : Machine ω}

theorem sound_initial (perform : Comparison ω) (schedule : Schedule) (workers : Nat)
    (pos : 0 < workers) (world : ω) :
    (initial schedule workers pos world).Sound perform schedule :=
  ⟨[], [], [], [], .between 0, Workshop.accounts_opened workers pos world⟩

/-- Every step keeps the books, whoever takes it. -/
theorem Sound.step (h : machine.Sound perform schedule) (step : Step perform machine machine') :
    machine'.Sound perform schedule := by
  obtain ⟨past, current, archive, done, place, books⟩ := h
  cases step with
  | @refuse shop index batch rest clash =>
    generalize hrest : batch :: rest = batches at place
    cases place with
    | between =>
      obtain ⟨found, rfl⟩ := Driver.At.exists_cons hrest.symm
      exact ⟨_, _, archive, done, .refused found clash, books⟩
  | @take shop index batch rest disjoint =>
    generalize hrest : batch :: rest = batches at place
    cases place with
    | between =>
      obtain ⟨found, rfl⟩ := Driver.At.exists_cons hrest.symm
      have jobs : (jobsOf perform schedule)[index]? = some ([] ++ ticketsOf perform index batch) := by
        rw [getElem?_jobsOf, found]
        rfl
      exact ⟨_, [], archive, done, .dispatching jobs, books⟩
  | @dispatch shop index ticket todo rest =>
    cases place with
    | dispatching jobs =>
      rw [List.append_cons] at jobs
      exact ⟨_, _, archive, done, .dispatching jobs, books.spawn ticket⟩
  | await =>
    cases place with
    | dispatching jobs =>
      rw [List.append_nil] at jobs
      exact ⟨_, _, archive, done, .awaiting jobs, books⟩
  | receive _ move =>
    cases place with
    | awaiting jobs => exact ⟨_, _, archive, done, .awaiting jobs, books.receives move⟩
  | @pass shop index rest complete =>
    cases place with
    | awaiting jobs =>
      have past : (jobsOf perform schedule).take (index + 1) =
          (jobsOf perform schedule).take index ++ [current] := by
        rw [List.take_add_one, jobs]
        rfl
      have books' := books.pass complete
      rw [← past] at books'
      exact ⟨_, [], _, [], .between (index + 1), books'⟩
  | work move =>
    obtain ⟨done', books'⟩ := books.works move
    exact ⟨past, current, archive, done', place, books'⟩

/-- The books balance in every state that can be reached. -/
theorem Reachable.sound {workers : Nat} {pos : 0 < workers} {world : ω}
    (reachable : Reachable perform (initial schedule workers pos world) machine) :
    machine.Sound perform schedule := by
  induction reachable with
  | refl => exact sound_initial perform schedule workers pos world
  | tail _ step ih => exact ih.step step

end Machine

/-! ## What follows for the tasks in flight -/

namespace Driver.At

variable {driver : Driver ω} {past : List (List (Ticket ω))} {current : List (Ticket ω)}

/-- The earlier batches were dispatched in full, and of the batch at hand a part. -/
theorem dispatched (place : driver.At perform schedule past current) :
    past = (jobsOf perform schedule).take driver.index ∧
      current.Sublist ((jobsOf perform schedule)[driver.index]?.getD []) := by
  cases place with
  | between => exact ⟨rfl, List.nil_sublist _⟩
  | dispatching jobs =>
    refine ⟨rfl, ?_⟩
    simp only [Driver.index, jobs, Option.getD_some]
    exact List.sublist_append_left ..
  | awaiting jobs =>
    refine ⟨rfl, ?_⟩
    simp only [Driver.index, jobs, Option.getD_some]
    exact .refl _
  | refused => exact ⟨rfl, List.nil_sublist _⟩

theorem sublist_jobsOf (place : driver.At perform schedule past current) :
    (past.flatten ++ current).Sublist (jobsOf perform schedule).flatten := by
  obtain ⟨rfl, part⟩ := place.dispatched
  have next : ((jobsOf perform schedule).take (driver.index + 1)).flatten =
      ((jobsOf perform schedule).take driver.index).flatten ++
        (jobsOf perform schedule)[driver.index]?.getD [] := by
    rw [List.take_add_one, List.flatten_append]
    cases (jobsOf perform schedule)[driver.index]? <;> simp
  have split := List.take_append_drop (driver.index + 1) (jobsOf perform schedule)
  conv_rhs => rw [← split, List.flatten_append, next]
  exact (part.append_left _).trans (List.sublist_append_left ..)

/-- The jobs of the batch at hand. -/
theorem mem_current (place : driver.At perform schedule past current) {ticket : Ticket ω}
    (mem : ticket ∈ current) :
    ticket.occurrence.batch = driver.index ∧
      schedule.taskAt? ticket.occurrence = some ticket.task := by
  have listed := place.dispatched.2.mem mem
  cases found : (jobsOf perform schedule)[driver.index]? with
  | none => simp [found] at listed
  | some tickets =>
    rw [found, Option.getD_some] at listed
    exact taskAt?_of_mem_jobsOf found listed

/-- Jobs that are dispatched between two barriers perform tasks that are apart. -/
theorem pairwise_apart (place : driver.At perform schedule past current)
    (disjoint : schedule.Disjoint) :
    current.Pairwise fun s t => s.task.Apart t.task := by
  refine List.Pairwise.sublist place.dispatched.2 ?_
  rw [getElem?_jobsOf]
  cases found : schedule.batches[driver.index]? with
  | none => exact .nil
  | some batch =>
    have apart := (Batch.disjoint_iff.mp (disjoint batch (List.mem_of_getElem? found))).2
    rw [← map_task_ticketsOf perform driver.index batch, List.pairwise_map] at apart
    exact apart

end Driver.At

/-- What is promised of a machine in every state. -/
structure Machine.Safe (schedule : Schedule) (machine : Machine ω) : Prop where
  /-- Tasks that run at the same time share no partition. -/
  apart : machine.shop.pool.running.Pairwise fun s t => s.task.Apart t.task
  /-- What is queued or running is a task of the batch at hand. -/
  inFlight : ∀ ticket ∈ machine.shop.pool.queued ++ machine.shop.pool.running,
    ticket.occurrence.batch = machine.driver.index ∧
      schedule.taskAt? ticket.occurrence = some ticket.task
  /-- Every occurrence in an earlier batch was performed. -/
  earlier : ∀ occurrence ∈ schedule.occurrences, occurrence.batch < machine.driver.index →
    occurrence ∈ machine.shop.performed.map fun call => call.ticket.occurrence
  /-- No occurrence was started twice, and each start was one of the task that stands there. -/
  once : (machine.shop.started.map Ticket.occurrence).Nodup
  faithful : ∀ ticket ∈ machine.shop.started,
    schedule.taskAt? ticket.occurrence = some ticket.task
  /-- The driver never stops in front of a batch. -/
  accepted : ∀ refusal, machine.driver ≠ .refused refusal
  /-- When the run ends, every occurrence was performed exactly once, and so was every task as often
  as it is listed. -/
  complete : machine.driver.Ended →
    (machine.shop.performed.map fun call => call.ticket.occurrence).Perm schedule.occurrences ∧
      (machine.shop.performed.map fun call => call.ticket.task).Perm schedule.tasks

namespace Machine.Sound

variable {machine : Machine ω}

theorem started_sublist (h : machine.Sound perform schedule) :
    ∃ jobs, (machine.shop.started ++ machine.shop.pool.queued).Perm jobs ∧
      jobs.Sublist (jobsOf perform schedule).flatten := by
  obtain ⟨past, current, archive, done, place, books⟩ := h
  exact ⟨_, books.perm_dispatched, place.sublist_jobsOf⟩

theorem started_once (h : machine.Sound perform schedule) :
    (machine.shop.started.map Ticket.occurrence).Nodup := by
  obtain ⟨jobs, perm, sub⟩ := h.started_sublist
  have unique : (jobs.map Ticket.occurrence).Nodup := by
    refine List.Nodup.sublist (sub.map _) ?_
    rw [map_occurrence_jobsOf]
    exact nodup_occurrences schedule
  have all := (perm.map Ticket.occurrence).nodup_iff.mpr unique
  rw [List.map_append] at all
  exact all.of_append_left

theorem started_faithful (h : machine.Sound perform schedule) :
    ∀ ticket ∈ machine.shop.started, schedule.taskAt? ticket.occurrence = some ticket.task := by
  intro ticket mem
  obtain ⟨jobs, perm, sub⟩ := h.started_sublist
  have listed := sub.mem (perm.mem_iff.mp (List.mem_append_left _ mem))
  obtain ⟨tickets, htickets, hticket⟩ := List.mem_flatten.mp listed
  obtain ⟨index, found⟩ := List.mem_iff_getElem?.mp htickets
  exact (taskAt?_of_mem_jobsOf found hticket).2

theorem earlier_performed (h : machine.Sound perform schedule) :
    ∀ occurrence ∈ schedule.occurrences, occurrence.batch < machine.driver.index →
      occurrence ∈ machine.shop.performed.map fun call => call.ticket.occurrence := by
  obtain ⟨past, current, archive, done, place, books⟩ := h
  intro occurrence mem before
  rw [← map_occurrence_jobsOf perform, List.mem_map] at mem
  obtain ⟨ticket, listed, rfl⟩ := mem
  obtain ⟨tickets, htickets, hticket⟩ := List.mem_flatten.mp listed
  obtain ⟨index, found⟩ := List.mem_iff_getElem?.mp htickets
  -- The list of a ticket stands at the index of its batch, and earlier lists are past.
  obtain ⟨same, -⟩ := taskAt?_of_mem_jobsOf found hticket
  have filed : ticket ∈ past.flatten := by
    rw [place.dispatched.1]
    have kept : ((jobsOf perform schedule).take machine.driver.index)[index]? = some tickets := by
      rw [List.getElem?_take_of_lt (same ▸ before), found]
    exact List.mem_flatten.mpr ⟨tickets, List.mem_of_getElem? kept, hticket⟩
  obtain ⟨call, hcall, rfl⟩ := List.mem_map.mp (books.perm_past.mem_iff.mpr filed)
  refine List.mem_map.mpr ⟨call, ?_, rfl⟩
  rw [books.performed]
  exact List.mem_append_left _ hcall

theorem ended_performed (h : machine.Sound perform schedule) (ended : machine.driver.Ended) :
    (machine.shop.performed.map Call.ticket).Perm (jobsOf perform schedule).flatten := by
  obtain ⟨past, current, archive, done, place, books⟩ := h
  obtain ⟨index, stand⟩ := ended
  rw [stand] at place
  generalize hrest : ([] : List Batch) = rest at place
  cases place with
  | between =>
    have all : (jobsOf perform schedule).take index = jobsOf perform schedule := by
      have := List.drop_eq_nil_iff.mp hrest.symm
      exact List.take_of_length_le (by simpa [jobsOf] using this)
    have none : done = [] := by
      have nothing := List.perm_nil.mp books.current
      rw [List.append_eq_nil_iff, List.append_eq_nil_iff, List.map_eq_nil_iff] at nothing
      exact nothing.2.2
    rw [books.performed, none, List.append_nil, ← all]
    exact books.perm_past

theorem ended_complete (h : machine.Sound perform schedule) (ended : machine.driver.Ended) :
    (machine.shop.performed.map fun call => call.ticket.occurrence).Perm schedule.occurrences ∧
      (machine.shop.performed.map fun call => call.ticket.task).Perm schedule.tasks := by
  have occurrences := (h.ended_performed ended).map Ticket.occurrence
  have tasks := (h.ended_performed ended).map Ticket.task
  rw [List.map_map, map_occurrence_jobsOf] at occurrences
  rw [List.map_map, map_task_jobsOf] at tasks
  exact ⟨occurrences, tasks⟩

theorem inFlight_current (h : machine.Sound perform schedule) :
    ∀ ticket ∈ machine.shop.pool.queued ++ machine.shop.pool.running,
      ticket.occurrence.batch = machine.driver.index ∧
        schedule.taskAt? ticket.occurrence = some ticket.task := by
  obtain ⟨past, current, archive, done, place, books⟩ := h
  intro ticket mem
  refine place.mem_current (books.current.mem_iff.mp ?_)
  rw [← List.append_assoc]
  exact List.mem_append_left _ mem

theorem running_apart (h : machine.Sound perform schedule) (disjoint : schedule.Disjoint) :
    machine.shop.pool.running.Pairwise fun s t => s.task.Apart t.task := by
  obtain ⟨past, current, archive, done, place, books⟩ := h
  have all := books.current.symm.pairwise (place.pairwise_apart disjoint) fun apart => apart.symm
  exact (List.pairwise_append.mp (List.pairwise_append.mp all).2.1).1

theorem not_refused (h : machine.Sound perform schedule) (disjoint : schedule.Disjoint)
    (refusal : Refusal) : machine.driver ≠ .refused refusal := by
  obtain ⟨past, current, archive, done, place, books⟩ := h
  intro stand
  rw [stand] at place
  cases place with
  | refused found clash => exact clash (disjoint _ (List.mem_of_getElem? found))

end Machine.Sound

/-- No two running tasks ever share a partition. In every interleaving of a pool that performs a
disjoint schedule, whatever the number of workers, every state is safe. -/
theorem reachable_safe {machine : Machine ω} (disjoint : schedule.Disjoint) {workers : Nat}
    {pos : 0 < workers} {world : ω}
    (reachable : Machine.Reachable perform (.initial schedule workers pos world) machine) :
    machine.Safe schedule := by
  have sound := reachable.sound
  exact {
    apart := sound.running_apart disjoint
    inFlight := sound.inFlight_current
    earlier := sound.earlier_performed
    once := sound.started_once
    faithful := sound.started_faithful
    accepted := sound.not_refused disjoint
    complete := sound.ended_complete }

/-- Two workers that are given two batches may both be at work in the first one. -/
theorem two_running_safe :
    let schedule : Schedule := ⟨4, [⟨[.cross 0 1, .cross 2 3]⟩, ⟨[.diagonal 0]⟩]⟩
    ∃ machine : Machine Unit, schedule.Disjoint ∧ 0 < 2 ∧
      Machine.Reachable .trivial (.initial schedule 2 Nat.two_pos ()) machine ∧
      machine.shop.pool.running.map Ticket.task = [.cross 0 1, .cross 2 3] ∧
      machine.Safe schedule := by
  intro schedule
  have disjoint : schedule.Disjoint := by decide
  have reachable : ∃ machine,
      Machine.Reachable .trivial (.initial schedule 2 Nat.two_pos ()) machine ∧
        machine.shop.pool.running.map Ticket.task = [.cross 0 1, .cross 2 3] :=
    ⟨_, .head (.take (by decide)) <| .head .dispatch <| .head .dispatch <|
      .head (.work (.start 0 rfl rfl)) <| .head (.work (.start 0 rfl rfl)) .refl, rfl⟩
  obtain ⟨machine, reached, running⟩ := reachable
  exact ⟨machine, disjoint, Nat.two_pos, reached, running, reachable_safe disjoint reached⟩

end Execution
end AllPairs
