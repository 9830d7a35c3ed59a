import AllPairs.Execution.Executor

/-!
A pool of workers. Dispatching a task queues it together with its comparison and counts it. A free
worker starts a queued job; a running job that finishes sends one result. The barrier receives
results until there are as many of them as jobs were dispatched, and resets the count. Which queued
job starts next and which running job finishes next is open; the executor built here is the one
that lets jobs start and finish in the order in which they were dispatched.
-/

namespace AllPairs

/-- A task together with the comparison that performs it. -/
structure Job (ω : Type) where
  task : Task
  perform : Comparison ω

/-- Performs a job and records how that ends. -/
def Job.run {ω : Type} (job : Job ω) (world : ω) : TaskResult × ω :=
  TaskResult.capture job.perform job.task world

/-- The state of a pool of jobs of type `J` between two moves. -/
structure Pool (J : Type) where
  workers : Nat
  pos : 0 < workers
  /-- How many jobs were dispatched since the last barrier. -/
  dispatched : Nat
  /-- Jobs that no worker started yet. -/
  queued : List J
  /-- Jobs that workers are performing. -/
  running : List J
  /-- Results that were sent and not yet received. -/
  sent : List TaskResult

namespace Pool

variable {J ω : Type}

/-- A pool without work. -/
def ofWorkers (workers : Nat) (pos : 0 < workers) : Pool J :=
  ⟨workers, pos, 0, [], [], []⟩

/-- Queues a job. -/
def spawn (job : J) (pool : Pool J) : Pool J :=
  { pool with dispatched := pool.dispatched + 1, queued := pool.queued ++ [job] }

/-- A free worker starts the queued job at a position. -/
def start? (index : Nat) (pool : Pool J) : Option (Pool J) :=
  if pool.running.length < pool.workers then
    pool.queued[index]?.map fun job =>
      { pool with queued := pool.queued.eraseIdx index, running := pool.running ++ [job] }
  else none

/-- The running job at a position finishes and sends the result that `run` gives. -/
def finish? (run : J → ω → TaskResult × ω) (index : Nat) (pool : Pool J) (world : ω) :
    Option (Pool J × ω) :=
  pool.running[index]?.map fun job =>
    let (result, world) := run job world
    ({ pool with running := pool.running.eraseIdx index, sent := pool.sent ++ [result] }, world)

/-- The oldest result that was sent is received. -/
def receive? (pool : Pool J) : Option (TaskResult × Pool J) :=
  match pool.sent with
  | [] => none
  | result :: sent => some (result, { pool with sent })

/-- The barrier is passed: counting starts again. -/
def settle (pool : Pool J) : Pool J :=
  { pool with dispatched := 0 }

/-- Queues the tasks of a batch. -/
def dispatch (perform : Comparison ω) (batch : Batch) (pool : Pool (Job ω)) : Pool (Job ω) :=
  batch.tasks.foldl (fun pool task => pool.spawn ⟨task, perform⟩) pool

/-- Waits until as many results are received as jobs were dispatched. Results are received as soon
as they are sent, and a job finishes before another one starts, each time the first one. -/
def collect (run : J → ω → TaskResult × ω) (received : List TaskResult) (pool : Pool J) (world : ω) :
    List TaskResult × Pool J × ω :=
  if received.length < pool.dispatched then
    match _ : pool.sent, _ : pool.running, _ : pool.queued with
    | result :: sent, _, _ => collect run (received ++ [result]) { pool with sent } world
    | [], job :: running, _ =>
      let (result, world) := run job world
      collect run received { pool with running, sent := [result] } world
    | [], [], job :: queued => collect run received { pool with queued, running := [job] } world
    | [], [], [] => (received, pool.settle, world)
  else (received, pool.settle, world)
termination_by 3 * pool.queued.length + 2 * pool.running.length + pool.sent.length
decreasing_by all_goals simp_all <;> omega

section Collect

variable {run : J → ω → TaskResult × ω} {received : List TaskResult} {pool : Pool J} {world : ω}

theorem collect_of_sent {result : TaskResult} {sent : List TaskResult}
    (hsent : pool.sent = result :: sent) (waiting : received.length < pool.dispatched) :
    collect run received pool world = collect run (received ++ [result]) { pool with sent } world := by
  obtain ⟨workers, pos, dispatched, queued, running, _⟩ := pool
  cases hsent
  rw [collect, if_pos waiting]

theorem collect_of_running {job : J} {running : List J} (hrunning : pool.running = job :: running)
    (hsent : pool.sent = []) (waiting : received.length < pool.dispatched) :
    collect run received pool world =
      collect run received { pool with running, sent := [(run job world).1] } (run job world).2 := by
  obtain ⟨workers, pos, dispatched, queued, _, _⟩ := pool
  cases hsent
  cases hrunning
  rw [collect, if_pos waiting]

theorem collect_of_queued {job : J} {queued : List J} (hqueued : pool.queued = job :: queued)
    (hrunning : pool.running = []) (hsent : pool.sent = [])
    (waiting : received.length < pool.dispatched) :
    collect run received pool world =
      collect run received { pool with queued, running := [job] } world := by
  obtain ⟨workers, pos, dispatched, _, _, _⟩ := pool
  cases hsent
  cases hrunning
  cases hqueued
  rw [collect, if_pos waiting]

theorem collect_of_stuck (hqueued : pool.queued = []) (hrunning : pool.running = [])
    (hsent : pool.sent = []) :
    collect run received pool world = (received, pool.settle, world) := by
  obtain ⟨workers, pos, dispatched, _, _, _⟩ := pool
  cases hsent
  cases hrunning
  cases hqueued
  rw [collect]
  split <;> rfl

theorem collect_of_done (done : ¬ received.length < pool.dispatched) :
    collect run received pool world = (received, pool.settle, world) := by
  rw [collect, if_neg done]

end Collect

/-- The pool whose jobs start and finish in the order in which they were dispatched. -/
def executor (ω : Type) : Executor (Pool (Job ω)) ω where
  dispatch perform batch pool world := (pool.dispatch perform batch, world)
  await pool world := collect Job.run [] pool world

/-- The structural text of the pool. -/
def dump (pool : Pool J) : String :=
  Dump.openRecord "ThreadPool"
    [("workers", toString pool.workers), ("dispatched", toString pool.dispatched)]

end Pool
end AllPairs
