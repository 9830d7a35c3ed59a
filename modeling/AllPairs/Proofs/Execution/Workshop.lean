import AllPairs.Execution.Pool
import Mathlib.Data.List.Forall2
import Mathlib.Data.List.Perm.Basic

/-!
# A pool at work

A workshop is a pool together with the world its jobs change, the results that were received, and
what happened so far: which jobs were started and which ones were performed. Every job carries a
ticket that says which occurrence of a task it performs, so that equal tasks can be told apart.

The books of a workshop balance in every state: a job that was dispatched since the last barrier
is queued, running or finished, and a result was received or is on its way for every finished one.
When as many results are received as jobs were dispatched, nothing is left in flight.
-/

namespace AllPairs

namespace Pool

variable {J ω : Type} {pool next : Pool J} {index : Nat} {job : J}

/-- Starting a job moves it from the queue to the running ones. -/
theorem start?_spec (found : pool.queued[index]? = some job) (moved : pool.start? index = some next) :
    (job :: next.queued).Perm pool.queued ∧
      next = { pool with queued := next.queued, running := pool.running ++ [job] } := by
  obtain ⟨below, rfl⟩ := List.getElem?_eq_some_iff.mp found
  simp only [start?, found, Option.map_some, Option.ite_none_right_eq_some,
    Option.some.injEq] at moved
  obtain ⟨-, rfl⟩ := moved
  exact ⟨List.getElem_cons_eraseIdx_perm below, rfl⟩

/-- Finishing a job takes it from the running ones and sends its result. -/
theorem finish?_spec {run : J → ω → TaskResult × ω} {world after : ω}
    (found : pool.running[index]? = some job)
    (moved : pool.finish? run index world = some (next, after)) :
    (job :: next.running).Perm pool.running ∧ after = (run job world).2 ∧
      next = { pool with
        running := next.running
        sent := pool.sent ++ [(run job world).1] } := by
  obtain ⟨below, rfl⟩ := List.getElem?_eq_some_iff.mp found
  simp only [finish?, found, Option.map_some, Option.some.injEq, Prod.mk.injEq] at moved
  obtain ⟨rfl, rfl⟩ := moved
  exact ⟨List.getElem_cons_eraseIdx_perm below, rfl, rfl⟩

/-- Receiving takes the oldest result that was sent. -/
theorem receive?_eq_some_iff {result : TaskResult} :
    pool.receive? = some (result, next) ↔
      pool.sent = result :: next.sent ∧ next = { pool with sent := next.sent } := by
  unfold receive?
  cases pool.sent with
  | nil => simp
  | cons first sent =>
    simp only [Option.some.injEq, Prod.mk.injEq, List.cons.injEq]
    constructor
    · rintro ⟨rfl, rfl⟩
      exact ⟨⟨rfl, rfl⟩, rfl⟩
    · rintro ⟨⟨rfl, rfl⟩, same⟩
      exact ⟨rfl, same.symm⟩

/-- Nothing was dispatched since the last barrier, and nothing is in flight. -/
structure Idle (pool : Pool J) : Prop where
  dispatched : pool.dispatched = 0
  queued : pool.queued = []
  running : pool.running = []
  sent : pool.sent = []

/-- The counting invariant: what was dispatched since the last barrier was received, is on its way,
or is queued or running. -/
def Balanced (received : List TaskResult) (pool : Pool J) : Prop :=
  pool.dispatched = received.length + pool.sent.length +
    (pool.queued.length + pool.running.length)

theorem Idle.balanced (idle : pool.Idle) : pool.Balanced [] := by
  simp [Balanced, idle.dispatched, idle.queued, idle.running, idle.sent]

namespace Balanced

variable {received : List TaskResult}

theorem spawn (balanced : pool.Balanced received) (job : J) : (pool.spawn job).Balanced received := by
  unfold Balanced Pool.spawn at *
  simp only [List.length_append, List.length_singleton]
  omega

theorem start (balanced : pool.Balanced received) (found : pool.queued[index]? = some job)
    (moved : pool.start? index = some next) : next.Balanced received := by
  obtain ⟨queued, rest⟩ := start?_spec found moved
  have taken := queued.length_eq
  rw [rest]
  unfold Balanced at *
  simp only [List.length_append, List.length_cons, List.length_nil] at *
  omega

theorem finish (balanced : pool.Balanced received) {run : J → ω → TaskResult × ω} {world after : ω}
    (found : pool.running[index]? = some job)
    (moved : pool.finish? run index world = some (next, after)) : next.Balanced received := by
  obtain ⟨running, -, rest⟩ := finish?_spec found moved
  have taken := running.length_eq
  rw [rest]
  unfold Balanced at *
  simp only [List.length_append, List.length_cons, List.length_nil] at *
  omega

theorem receive (balanced : pool.Balanced received) {result : TaskResult}
    (moved : pool.receive? = some (result, next)) : next.Balanced (received ++ [result]) := by
  obtain ⟨oldest, rest⟩ := receive?_eq_some_iff.mp moved
  rw [rest]
  unfold Balanced at *
  rw [oldest] at balanced
  simp only [List.length_append, List.length_cons, List.length_nil] at *
  omega

/-- When as many results were received as jobs dispatched, nothing is in flight. -/
theorem idle_settle (balanced : pool.Balanced received)
    (complete : ¬ received.length < pool.dispatched) : pool.settle.Idle := by
  unfold Balanced at balanced
  refine ⟨rfl, ?_, ?_, ?_⟩ <;> rw [← List.length_eq_zero_iff] <;> dsimp only [settle] <;> omega

end Balanced

end Pool

namespace Execution

variable {ω : Type}

/-- A place in a schedule: a batch and a task in it, both by position. -/
structure Occurrence where
  batch : Nat
  position : Nat
deriving DecidableEq

/-- A job together with the occurrence of its task. -/
structure Ticket (ω : Type) where
  occurrence : Occurrence
  job : Job ω

namespace Ticket

/-- The task that is performed. -/
def task (ticket : Ticket ω) : Task :=
  ticket.job.task

/-- Performs the job. -/
def run (ticket : Ticket ω) (world : ω) : TaskResult × ω :=
  ticket.job.run world

end Ticket

/-- A job that was performed and the result that it sent. -/
structure Call (ω : Type) where
  ticket : Ticket ω
  result : TaskResult

/-- A pool at work, with its history. -/
structure Workshop (ω : Type) where
  pool : Pool (Ticket ω)
  world : ω
  /-- Results that were received since the last barrier. -/
  received : List TaskResult
  /-- The results that were handed over at every barrier so far. -/
  outcomes : List (List TaskResult)
  /-- Every job that was started so far. -/
  started : List (Ticket ω)
  /-- Every job that was performed so far. -/
  performed : List (Call ω)

namespace Workshop

/-- Nothing has happened yet. -/
def opened (pool : Pool (Ticket ω)) (world : ω) : Workshop ω :=
  ⟨pool, world, [], [], [], []⟩

/-- A job is dispatched. -/
def spawn (ticket : Ticket ω) (shop : Workshop ω) : Workshop ω :=
  { shop with pool := shop.pool.spawn ticket }

/-- The barrier is passed, and the results received so far are handed over. -/
def pass (shop : Workshop ω) : Workshop ω :=
  { shop with
    pool := shop.pool.settle
    received := []
    outcomes := shop.outcomes ++ [shop.received] }

/-- The moves of the workers: a free one starts any queued job, or a busy one finishes. -/
inductive Works : Workshop ω → Workshop ω → Prop where
  | start {shop : Workshop ω} (index : Nat) {ticket : Ticket ω} {pool : Pool (Ticket ω)}
      (job : shop.pool.queued[index]? = some ticket) (moved : shop.pool.start? index = some pool) :
      Works shop { shop with pool, started := shop.started ++ [ticket] }
  | finish {shop : Workshop ω} (index : Nat) {ticket : Ticket ω} {pool : Pool (Ticket ω)} {world : ω}
      (job : shop.pool.running[index]? = some ticket)
      (moved : shop.pool.finish? Ticket.run index shop.world = some (pool, world)) :
      Works shop { shop with
        pool
        world
        performed := shop.performed ++ [⟨ticket, (ticket.run shop.world).1⟩] }

/-- The oldest result on its way is received. -/
inductive Receives : Workshop ω → Workshop ω → Prop where
  | receive {shop : Workshop ω} {result : TaskResult} {pool : Pool (Ticket ω)}
      (moved : shop.pool.receive? = some (result, pool)) :
      Receives shop { shop with pool, received := shop.received ++ [result] }

/-- If each barrier was for the jobs of its group, all of them together were for all jobs. -/
theorem perm_flatten {past : List (List (Ticket ω))} {archive : List (List (Call ω))}
    (filed : List.Forall₂ (fun tickets calls => (calls.map Call.ticket).Perm tickets) past archive) :
    (archive.flatten.map Call.ticket).Perm past.flatten := by
  induction filed with
  | nil => exact .refl _
  | cons first _ ih => simpa using first.append ih

/-- The books of a workshop. Before the last barrier the jobs `past` were dispatched, barrier by
barrier, and performed as `archive` says; since then `current` was dispatched, of which `done` was
performed. -/
structure Accounts (past : List (List (Ticket ω))) (current : List (Ticket ω))
    (archive : List (List (Call ω))) (done : List (Call ω)) (shop : Workshop ω) : Prop where
  dispatched : shop.pool.dispatched = current.length
  current : (shop.pool.queued ++ (shop.pool.running ++ done.map Call.ticket)).Perm current
  received : shop.received ++ shop.pool.sent = done.map Call.result
  past : List.Forall₂ (fun tickets calls => (calls.map Call.ticket).Perm tickets) past archive
  outcomes : shop.outcomes = archive.map (List.map Call.result)
  performed : shop.performed = archive.flatten ++ done
  started : shop.started.Perm (shop.performed.map Call.ticket ++ shop.pool.running)

theorem accounts_opened (workers : Nat) (pos : 0 < workers) (world : ω) :
    Accounts [] [] [] [] (opened (.ofWorkers workers pos) world) where
  dispatched := rfl
  current := .refl _
  received := rfl
  past := .nil
  outcomes := rfl
  performed := rfl
  started := .refl _

namespace Accounts

variable {past : List (List (Ticket ω))} {current : List (Ticket ω)}
  {archive : List (List (Call ω))} {done : List (Call ω)} {shop shop' : Workshop ω}

theorem spawn (h : Accounts past current archive done shop) (ticket : Ticket ω) :
    Accounts past (current ++ [ticket]) archive done (shop.spawn ticket) := by
  refine { h with dispatched := ?_, current := ?_ }
  · simp [Workshop.spawn, Pool.spawn, h.dispatched]
  · simp only [Workshop.spawn, Pool.spawn, List.append_assoc]
    have moved : ([ticket] ++ (shop.pool.queued ++ (shop.pool.running ++ done.map Call.ticket))).Perm
        (current ++ [ticket]) :=
      List.perm_append_comm.trans (h.current.append_right _)
    exact (List.perm_append_comm_assoc ..).trans moved

/-- The moves of workers keep the books. -/
theorem works (h : Accounts past current archive done shop) (move : Works shop shop') :
    ∃ done', Accounts past current archive done' shop' := by
  classical
  have current := List.perm_iff_count.mp h.current
  have started := List.perm_iff_count.mp h.started
  cases move with
  | @start index ticket pool job moved =>
    obtain ⟨queued, rest⟩ := Pool.start?_spec job moved
    have taken := List.perm_iff_count.mp queued
    refine ⟨done, { h with dispatched := ?_, current := ?_, received := ?_, started := ?_ }⟩
    · rw [rest]
      exact h.dispatched
    · rw [List.perm_iff_count]
      intro t
      have := current t
      have := taken t
      rw [rest]
      simp only [List.count_append, List.count_cons, List.count_nil] at *
      omega
    · rw [rest]
      exact h.received
    · rw [List.perm_iff_count]
      intro t
      have := started t
      rw [rest]
      simp only [List.count_append] at *
      omega
  | @finish index ticket pool world job moved =>
    obtain ⟨running, -, rest⟩ := Pool.finish?_spec job moved
    have taken := List.perm_iff_count.mp running
    refine ⟨done ++ [⟨ticket, (ticket.run shop.world).1⟩],
      { h with dispatched := ?_, current := ?_, received := ?_, performed := ?_, started := ?_ }⟩
    · rw [rest]
      exact h.dispatched
    · rw [List.perm_iff_count]
      intro t
      have := current t
      have := taken t
      rw [rest]
      simp only [List.map_append, List.map_cons, List.map_nil, List.count_append, List.count_cons,
        List.count_nil] at *
      omega
    · rw [rest, ← List.append_assoc, h.received, List.map_append]
      rfl
    · rw [h.performed, List.append_assoc]
    · rw [List.perm_iff_count]
      intro t
      have := started t
      have := taken t
      simp only [List.map_append, List.map_cons, List.map_nil, List.count_append, List.count_cons,
        List.count_nil] at *
      omega

theorem receives (h : Accounts past current archive done shop) (move : Receives shop shop') :
    Accounts past current archive done shop' := by
  cases move with
  | @receive result pool moved =>
    obtain ⟨oldest, rest⟩ := Pool.receive?_eq_some_iff.mp moved
    refine { h with dispatched := ?_, current := ?_, received := ?_, started := ?_ }
    · rw [rest]
      exact h.dispatched
    · rw [rest]
      exact h.current
    · rw [← h.received, oldest, List.append_assoc]
      rfl
    · rw [rest]
      exact h.started

theorem perm_past (h : Accounts past current archive done shop) :
    (archive.flatten.map Call.ticket).Perm past.flatten :=
  perm_flatten h.past

/-- Every job that was dispatched so far was started or is queued. -/
theorem perm_dispatched (h : Accounts past current archive done shop) :
    (shop.started ++ shop.pool.queued).Perm (past.flatten ++ current) := by
  classical
  have started := List.perm_iff_count.mp h.started
  have current := List.perm_iff_count.mp h.current
  have past := List.perm_iff_count.mp h.perm_past
  rw [List.perm_iff_count]
  intro ticket
  have := started ticket
  have := current ticket
  have := past ticket
  simp only [h.performed, List.map_append, List.count_append] at *
  omega

theorem balanced (h : Accounts past current archive done shop) :
    shop.pool.Balanced shop.received := by
  have jobs := h.current.length_eq
  have results := congrArg List.length h.received
  simp only [List.length_append, List.length_map] at jobs results
  rw [Pool.Balanced, h.dispatched]
  omega

/-- Passing the barrier files what was dispatched since the last one as performed. -/
theorem pass (h : Accounts past current archive done shop)
    (complete : ¬ shop.received.length < shop.pool.dispatched) :
    Accounts (past ++ [current]) [] (archive ++ [done]) [] shop.pass := by
  have idle := h.balanced.idle_settle complete
  have finished := h.current
  have received := h.received
  rw [show shop.pool.queued = [] from idle.queued, show shop.pool.running = [] from idle.running,
    List.nil_append, List.nil_append] at finished
  rw [show shop.pool.sent = [] from idle.sent, List.append_nil] at received
  exact {
    dispatched := rfl
    current := by simp [Workshop.pass, idle.queued, idle.running]
    received := idle.sent
    past := List.rel_append h.past (.cons finished .nil)
    outcomes := by simp [Workshop.pass, h.outcomes, received]
    performed := by simp [Workshop.pass, h.performed]
    started := by simpa [Workshop.pass, Pool.settle] using h.started }

end Accounts
end Workshop
end Execution
end AllPairs
