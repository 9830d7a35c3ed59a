import AllPairs.Proofs.Execution.Interleaving

/-!
# The interleaving in dispatch order

The executor of a pool lets jobs start and finish in the order in which they were dispatched. To
dispatch and to wait in this order is a sequence of steps for whoever owns the pool, as long as each
move is one. So what the executor does to a schedule is one of the interleavings of the machine, and
what holds in every interleaving holds of the executor.
-/

namespace AllPairs

namespace Pool

variable {J K ω : Type}

/-- The pool with other jobs in the places of its own. -/
def map (f : J → K) (pool : Pool J) : Pool K :=
  ⟨pool.workers, pool.pos, pool.dispatched, pool.queued.map f, pool.running.map f, pool.sent⟩

theorem map_spawn (f : J → K) (job : J) (pool : Pool J) :
    (pool.spawn job).map f = (pool.map f).spawn (f job) := by
  simp [map, spawn]

/-- What is collected of jobs does not depend on what they carry besides what they run. -/
theorem collect_map (f : J → K) (run : K → ω → TaskResult × ω) (received : List TaskResult)
    (pool : Pool J) (world : ω) :
    collect run received (pool.map f) world =
      Prod.map id (Prod.map (map f) id) (collect (fun job => run (f job)) received pool world) := by
  fun_induction collect (fun job => run (f job)) received pool world with
  | case1 received pool world waiting result sent hsent ih =>
    have arrived : (pool.map f).sent = result :: sent := hsent
    rw [collect_of_sent arrived waiting]
    exact ih
  | case2 received pool world waiting job running hsent hrunning result after hrun ih =>
    have busy : (pool.map f).running = f job :: running.map f := by
      rw [map, hrunning, List.map_cons]
    rw [collect_of_running busy hsent waiting, hrun]
    exact ih
  | case3 received pool world waiting job queued hsent hrunning hqueued ih =>
    have next : (pool.map f).queued = f job :: queued.map f := by
      rw [map, hqueued, List.map_cons]
    have free : (pool.map f).running = [] := by
      rw [map, hrunning, List.map_nil]
    rw [collect_of_queued next free hsent waiting]
    exact ih
  | case4 received pool world waiting hsent hrunning hqueued =>
    have empty : (pool.map f).queued = [] := by
      rw [map, hqueued, List.map_nil]
    have free : (pool.map f).running = [] := by
      rw [map, hrunning, List.map_nil]
    rw [collect_of_stuck empty free hsent]
    rfl
  | case5 received pool world done =>
    have complete : ¬ received.length < (pool.map f).dispatched := done
    rw [collect_of_done complete]
    rfl

end Pool

namespace Execution

variable {ω : Type} {perform : Comparison ω}

/-! ## Whoever owns the pool -/

/-- What is collected does not depend on the occurrences of the jobs. -/
theorem await_eq_of_collect {pool after : Pool (Ticket ω)} {world world' : ω}
    {results : List TaskResult}
    (collected : Pool.collect Ticket.run [] pool world = (results, after, world')) :
    (Pool.executor ω).await (pool.map Ticket.job) world =
      (results, after.map Ticket.job, world') :=
  (Pool.collect_map Ticket.job Job.run [] pool world).trans
    (congrArg (Prod.map id (Prod.map (Pool.map Ticket.job) id)) collected)

section Owner

variable {α : Type} (step : α → α → Prop)

/-- Waiting at the barrier in dispatch order is a sequence of moves, each of which is a step of whoever
waits there. -/
theorem exists_steps_collect (place : Workshop ω → α)
    (work : ∀ {shop shop' : Workshop ω}, shop.Works shop' → step (place shop) (place shop'))
    (receive : ∀ {shop shop' : Workshop ω}, shop.received.length < shop.pool.dispatched →
      shop.Receives shop' → step (place shop) (place shop'))
    (shop : Workshop ω) (balanced : shop.pool.Balanced shop.received) :
    ∃ last, Relation.ReflTransGen step (place shop) (place last) ∧
      ¬ last.received.length < last.pool.dispatched ∧ last.pool.settle.Idle ∧
      Pool.collect Ticket.run shop.received shop.pool shop.world =
        (last.received, last.pool.settle, last.world) ∧
      last.outcomes = shop.outcomes := by
  obtain ⟨pool, world, received, outcomes, started, performed⟩ := shop
  dsimp only at balanced ⊢
  fun_induction Pool.collect Ticket.run received pool world generalizing started performed with
  | case1 received pool world waiting result sent hsent ih =>
    have moved : pool.receive? = some (result, { pool with sent }) :=
      Pool.receive?_eq_some_iff.mpr ⟨hsent, rfl⟩
    obtain ⟨last, steps, rest⟩ := ih started performed (balanced.receive moved)
    exact ⟨last, .head (receive waiting ⟨moved⟩) steps, rest⟩
  | case2 received pool world waiting ticket running hsent hrunning result after hrun ih =>
    have found : pool.running[0]? = some ticket := by
      rw [hrunning, List.getElem?_cons_zero]
    have moved : pool.finish? Ticket.run 0 world =
        some ({ pool with running, sent := [result] }, after) := by
      simp [Pool.finish?, hrunning, hrun, hsent]
    obtain ⟨last, steps, rest⟩ :=
      ih started (performed ++ [⟨ticket, (ticket.run world).1⟩]) (balanced.finish found moved)
    exact ⟨last, .head (work (.finish 0 found moved)) steps, rest⟩
  | case3 received pool world waiting ticket queued hsent hrunning hqueued ih =>
    have found : pool.queued[0]? = some ticket := by
      rw [hqueued, List.getElem?_cons_zero]
    have moved : pool.start? 0 = some { pool with queued, running := [ticket] } := by
      simp [Pool.start?, hqueued, hrunning, pool.pos]
    obtain ⟨last, steps, rest⟩ := ih (started ++ [ticket]) performed (balanced.start found moved)
    exact ⟨last, .head (work (.start 0 found moved)) steps, rest⟩
  | case4 received pool world waiting hsent hrunning hqueued =>
    -- Nothing is in flight, so as many results were received as jobs dispatched.
    unfold Pool.Balanced at balanced
    rw [hsent, hrunning, hqueued] at balanced
    exact absurd waiting (Nat.not_lt.mpr (Nat.le_of_eq balanced))
  | case5 received pool world done =>
    exact ⟨_, .refl, done, balanced.idle_settle done, rfl, rfl⟩

theorem exists_steps_spawn (place : List (Ticket ω) → Workshop ω → α)
    (spawn : ∀ {ticket : Ticket ω} {todo : List (Ticket ω)} {shop : Workshop ω},
      step (place (ticket :: todo) shop) (place todo (shop.spawn ticket)))
    (tickets : List (Ticket ω)) (shop : Workshop ω) (balanced : shop.pool.Balanced shop.received) :
    ∃ pool, Relation.ReflTransGen step (place tickets shop) (place [] { shop with pool }) ∧
      pool.Balanced shop.received ∧
      pool.map Ticket.job =
        (tickets.map Ticket.job).foldl (fun pool job => pool.spawn job) (shop.pool.map Ticket.job) := by
  induction tickets generalizing shop with
  | nil => exact ⟨shop.pool, .refl, balanced, rfl⟩
  | cons ticket tickets ih =>
    obtain ⟨pool, steps, last, jobs⟩ := ih (shop.spawn ticket) (balanced.spawn ticket)
    refine ⟨pool, .head spawn steps, last, ?_⟩
    rw [jobs, List.map_cons, List.foldl_cons, ← Pool.map_spawn]
    rfl

/-- Dispatching a batch is a sequence of steps of whoever dispatches it. -/
theorem exists_steps_dispatch (place : List (Ticket ω) → Workshop ω → α)
    (spawn : ∀ {ticket : Ticket ω} {todo : List (Ticket ω)} {shop : Workshop ω},
      step (place (ticket :: todo) shop) (place todo (shop.spawn ticket)))
    (perform : Comparison ω) (index : Nat) (batch : Batch) (shop : Workshop ω)
    (balanced : shop.pool.Balanced shop.received) :
    ∃ pool, Relation.ReflTransGen step (place (ticketsOf perform index batch) shop)
        (place [] { shop with pool }) ∧
      pool.Balanced shop.received ∧
      pool.map Ticket.job = (shop.pool.map Ticket.job).dispatch perform batch := by
  obtain ⟨pool, steps, last, jobs⟩ :=
    exists_steps_spawn step place spawn (ticketsOf perform index batch) shop balanced
  refine ⟨pool, steps, last, ?_⟩
  rw [jobs, map_job_ticketsOf, List.foldl_map]
  rfl

end Owner

/-! ## The machine -/

/-- What the machine shows is what a run has come to, after the results that were there before. -/
structure Machine.Shows (before : List (List TaskResult)) (run : Run (Pool (Job ω)) ω)
    (machine : Machine ω) : Prop where
  outcomes : machine.shop.outcomes = before ++ run.outcomes
  pool : machine.shop.pool.map Ticket.job = run.executor
  world : machine.shop.world = run.world
  returned : run.refusal = none → machine.driver.Ended
  refused : ∀ refusal ∈ run.refusal, machine.driver = .refused refusal

/-- What the executor does to batches in turn is one of the runs of a machine that stands in front
of the first one. -/
theorem exists_steps_performBatches (index : Nat) (batches : List Batch) (shop : Workshop ω)
    (none : shop.received = []) (idle : shop.pool.Idle) :
    ∃ machine, Relation.ReflTransGen (Machine.Step perform) ⟨.between index batches, shop⟩ machine ∧
      machine.Shows shop.outcomes (performBatches (Pool.executor ω) perform index batches
        (shop.pool.map Ticket.job) shop.world) := by
  induction batches generalizing index shop with
  | nil =>
    refine ⟨_, .refl, ?_⟩
    exact {
      outcomes := (List.append_nil _).symm
      pool := rfl
      world := rfl
      returned := fun _ => ⟨index, rfl⟩
      refused := fun refusal mem => by cases mem }
  | cons batch batches ih =>
    by_cases disjoint : batch.Disjoint
    · have balanced : shop.pool.Balanced shop.received := none ▸ idle.balanced
      obtain ⟨pool, dispatch, waiting, jobs⟩ := exists_steps_dispatch (Machine.Step perform)
        (fun todo shop => ⟨.dispatching index todo batches, shop⟩) .dispatch perform index batch shop
        balanced
      obtain ⟨last, collect, complete, idle', collected, outcomes⟩ := exists_steps_collect
        (Machine.Step perform) (fun shop => ⟨.awaiting index batches, shop⟩) .work .receive
        { shop with pool } waiting
      obtain ⟨machine, steps, shows⟩ := ih (index + 1) last.pass rfl idle'
      refine ⟨machine, .head (.take disjoint) (dispatch.trans (.head .await (collect.trans
        (.head (.pass complete) steps)))), ?_⟩
      dsimp only at collected
      rw [none] at collected
      have awaited := await_eq_of_collect collected
      rw [jobs] at awaited
      rw [performBatches, if_pos disjoint]
      simp only [Pool.executor] at awaited ⊢
      simp only [awaited]
      exact {
        outcomes := by
          rw [shows.outcomes, Workshop.pass, outcomes, List.append_assoc]
          rfl
        pool := shows.pool
        world := shows.world
        returned := shows.returned
        refused := shows.refused }
    · refine ⟨_, .single (.refuse disjoint), ?_⟩
      rw [performBatches, if_neg disjoint]
      exact {
        outcomes := (List.append_nil _).symm
        pool := rfl
        world := rfl
        returned := fun absent => by cases absent
        refused := fun refusal mem => by cases mem; rfl }

/-- Performing a schedule with the executor of a pool is one of the runs of the machine. -/
theorem exists_reachable_execute (perform : Comparison ω) (schedule : Schedule) (workers : Nat)
    (pos : 0 < workers) (world : ω) :
    ∃ machine, Machine.Reachable perform (.initial schedule workers pos world) machine ∧
      machine.Shows [] (execute (Pool.executor ω) perform schedule (.ofWorkers workers pos) world) :=
  exists_steps_performBatches 0 schedule.batches (.opened (.ofWorkers workers pos) world) rfl
    ⟨rfl, rfl, rfl, rfl⟩

end Execution
end AllPairs
