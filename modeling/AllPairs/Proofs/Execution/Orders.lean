import AllPairs.Proofs.Execution.Interleaving

/-!
# What an executor is asked for

An executor is given orders: to start the tasks of a batch, and to wait for what it started. Whoever
owns it may give orders one by one, in any number and with any batches, or perform whole schedules on
it, one after the other, some of which end early because a batch of them is refused. Performing a
schedule is nothing but orders, so an owner's requests come down to one list of them, and its barriers
cut the dispatched jobs into groups.

The sequential executor hands over exactly these groups, each in dispatch order.
-/

namespace AllPairs.Execution

variable {ε ω : Type}

/-! ## Calls of comparisons -/

/-- The calls, one after the other, make of the first world the second one. Each performs the comparison
of its job once, in the world that the calls before it left, and its result reports how the comparison
ended. A world that takes note of calls has taken note of these and of no others; one that lists the
outcomes to come lets them depend on anything. -/
def Leads : List (Call ω) → ω → ω → Prop
  | [], world, after => after = world
  | call :: calls, world, after =>
    let ended := call.ticket.job.perform call.ticket.task world
    call.result = ⟨call.ticket.task, ended.1.fault?⟩ ∧ Leads calls ended.2 after

/-- Running a job makes one call. -/
theorem leads_run (ticket : Ticket ω) (world : ω) :
    Leads [⟨ticket, (ticket.run world).1⟩] world (ticket.run world).2 :=
  ⟨rfl, rfl⟩

theorem leads_append {calls more : List (Call ω)} {world after : ω} :
    Leads (calls ++ more) world after ↔
      ∃ between, Leads calls world between ∧ Leads more between after := by
  induction calls generalizing world with
  | nil => simp [Leads]
  | cons call calls ih =>
    simp only [List.cons_append, Leads, ih]
    constructor
    · rintro ⟨result, between, first, second⟩
      exact ⟨between, ⟨result, first⟩, second⟩
    · rintro ⟨between, ⟨result, first⟩, second⟩
      exact ⟨result, between, first, second⟩

/-- The result of a call is about the task of its job, and reports how the comparison ended. -/
theorem Leads.exists_completion {calls : List (Call ω)} {world after : ω}
    (leads : Leads calls world after) {call : Call ω} (mem : call ∈ calls) :
    ∃ before, call.result =
      ⟨call.ticket.task, (call.ticket.job.perform call.ticket.task before).1.fault?⟩ := by
  induction calls generalizing world with
  | nil => cases mem
  | cons first calls ih =>
    obtain ⟨result, rest⟩ := leads
    rcases List.mem_cons.mp mem with rfl | later
    · exact ⟨world, result⟩
    · exact ih rest later

theorem perform_of_mem_ticketsOf {perform : Comparison ω} {index : Nat} {batch : Batch}
    {ticket : Ticket ω} (mem : ticket ∈ ticketsOf perform index batch) :
    ticket.job.perform = perform := by
  obtain ⟨position, below, rfl⟩ := List.mem_mapIdx.mp mem
  rfl

@[simp]
theorem length_ticketsOf (perform : Comparison ω) (index : Nat) (batch : Batch) :
    (ticketsOf perform index batch).length = batch.size :=
  List.length_mapIdx

/-! ## Orders and requests -/

/-- What an executor can be told to do. -/
inductive Order (ω : Type) where
  /-- Start the tasks of a batch. -/
  | dispatch (perform : Comparison ω) (batch : Batch)
  /-- Wait for everything that was started, and hand over the results. -/
  | await

/-- What the owner of an executor does with it. -/
inductive Request (ω : Type) where
  /-- Gives it an order. -/
  | give (order : Order ω)
  /-- Performs batches on it in turn, up to the first one that is refused. -/
  | execute (perform : Comparison ω) (batches : List Batch)

namespace Request

/-- The orders that a request comes down to. -/
def orders : Request ω → List (Order ω)
  | give order => [order]
  | execute perform batches =>
    (batches.takeWhile fun batch => decide batch.Disjoint).flatMap fun batch =>
      [.dispatch perform batch, .await]

theorem orders_execute_cons_of_disjoint (perform : Comparison ω) {batch : Batch}
    (batches : List Batch) (disjoint : batch.Disjoint) :
    (execute perform (batch :: batches)).orders =
      .dispatch perform batch :: .await :: (execute perform batches).orders := by
  simp [orders, disjoint]

theorem orders_execute_cons_of_clash (perform : Comparison ω) {batch : Batch}
    (batches : List Batch) (clash : ¬ batch.Disjoint) :
    (execute perform (batch :: batches)).orders = [] := by
  simp [orders, clash]

end Request

/-- The jobs that orders dispatch: one group for each barrier, of what was dispatched since the barrier
before, and what no barrier follows. The jobs `current` wait for the first barrier already, and `index`
dispatches were made before. -/
def Order.groups :
    (index : Nat) → (current : List (Ticket ω)) → List (Order ω) →
      List (List (Ticket ω)) × List (Ticket ω)
  | _, current, [] => ([], current)
  | index, current, .dispatch perform batch :: rest =>
    groups (index + 1) (current ++ ticketsOf perform index batch) rest
  | index, current, .await :: rest =>
    (current :: (groups index [] rest).1, (groups index [] rest).2)

/-- The jobs that requests dispatch, grouped by barriers. -/
def Request.groups (requests : List (Request ω)) : List (List (Ticket ω)) × List (Ticket ω) :=
  Order.groups 0 [] (requests.flatMap Request.orders)

/-- Performing batches makes a group of each one before the first that is refused. -/
theorem groups_execute (perform : Comparison ω) (index : Nat) (batches : List Batch) :
    Order.groups index [] (Request.execute perform batches).orders =
      ((batches.takeWhile fun batch => decide batch.Disjoint).mapIdx
        fun position => ticketsOf perform (index + position), []) := by
  induction batches generalizing index with
  | nil => rfl
  | cons batch batches ih =>
    by_cases disjoint : batch.Disjoint
    · rw [Request.orders_execute_cons_of_disjoint perform batches disjoint]
      simp [Order.groups, ih, disjoint, List.mapIdx_cons, Nat.add_assoc, Nat.add_comm 1]
    · rw [Request.orders_execute_cons_of_clash perform batches disjoint]
      simp [Order.groups, disjoint]

/-! ## Executors -/

/-- What an executor makes of orders: the results that it hands over at each barrier, and its state and
the world afterwards. -/
def obey (executor : Executor ε ω) : List (Order ω) → ε → ω → List (List TaskResult) × ε × ω
  | [], state, world => ([], state, world)
  | .dispatch perform batch :: orders, state, world =>
    let (state, world) := executor.dispatch perform batch state world
    obey executor orders state world
  | .await :: orders, state, world =>
    let (results, state, world) := executor.await state world
    let (others, state, world) := obey executor orders state world
    (results :: others, state, world)

theorem obey_append (executor : Executor ε ω) (first second : List (Order ω)) (state : ε)
    (world : ω) :
    obey executor (first ++ second) state world =
      ((obey executor first state world).1 ++
          (obey executor second (obey executor first state world).2.1
            (obey executor first state world).2.2).1,
        (obey executor second (obey executor first state world).2.1
          (obey executor first state world).2.2).2) := by
  induction first generalizing state world with
  | nil => rfl
  | cons order first ih =>
    cases order with
    | dispatch perform batch => simp [obey, ih]
    | await => simp [obey, ih]

/-- Performing batches on an executor is giving it the orders that the request comes down to. -/
theorem performBatches_eq_obey (executor : Executor ε ω) (perform : Comparison ω) (index : Nat)
    (batches : List Batch) (state : ε) (world : ω) :
    obey executor (Request.execute perform batches).orders state world =
      ((performBatches executor perform index batches state world).outcomes,
        (performBatches executor perform index batches state world).executor,
        (performBatches executor perform index batches state world).world) := by
  induction batches generalizing index state world with
  | nil => rfl
  | cons batch batches ih =>
    by_cases disjoint : batch.Disjoint
    · rw [Request.orders_execute_cons_of_disjoint perform batches disjoint]
      simp [obey, performBatches, disjoint, ih (index + 1)]
    · rw [Request.orders_execute_cons_of_clash perform batches disjoint]
      simp [obey, performBatches, disjoint]

/-- Performing tasks in order makes one call of each job, in this order. -/
theorem exists_calls_captureEach {perform : Comparison ω} {tickets : List (Ticket ω)}
    (same : ∀ ticket ∈ tickets, ticket.job.perform = perform) (world : ω) :
    ∃ (calls : List (Call ω)) (after : ω), calls.map Call.ticket = tickets ∧
      TaskResult.captureEach perform (tickets.map Ticket.task) world =
        (calls.map Call.result, after) ∧
      Leads calls world after := by
  induction tickets generalizing world with
  | nil => exact ⟨[], world, rfl, rfl, rfl⟩
  | cons ticket tickets ih =>
    obtain ⟨head, tail⟩ := List.forall_mem_cons.mp same
    obtain ⟨calls, after, listed, results, leads⟩ := ih tail (ticket.run world).2
    have called : TaskResult.capture perform ticket.task world = ticket.run world := by
      rw [← head]
      rfl
    refine ⟨⟨ticket, (ticket.run world).1⟩ :: calls, after, ?_, ?_, ?_⟩
    · rw [List.map_cons, listed]
    · simp [TaskResult.captureEach, called, results]
    · exact leads_append.mpr ⟨_, leads_run ticket world, leads⟩

/-- Dispatching a batch adds a call of each of its jobs to those whose results are kept. -/
theorem exists_calls_dispatch (perform : Comparison ω) (index : Nat) (batch : Batch)
    (pending : List (Call ω)) (world : ω) :
    ∃ (calls : List (Call ω)) (after : ω), calls.map Call.ticket = ticketsOf perform index batch ∧
      Sequential.dispatch perform batch ⟨pending.map Call.result⟩ world =
        (⟨(pending ++ calls).map Call.result⟩, after) ∧
      Leads calls world after := by
  have same : ∀ ticket ∈ ticketsOf perform index batch, ticket.job.perform = perform := by
    intro ticket mem
    exact perform_of_mem_ticketsOf mem
  obtain ⟨calls, after, listed, results, leads⟩ := exists_calls_captureEach same world
  rw [map_task_ticketsOf] at results
  exact ⟨calls, after, listed, by simp [Sequential.dispatch, results], leads⟩

/-- At every barrier the sequential executor hands over the results of its group, in dispatch order;
what is left are the results that no barrier follows. The calls `pending` were made before. -/
theorem obey_sequential (orders : List (Order ω)) (index : Nat) (pending : List (Call ω))
    (world : ω) :
    ∃ (archive : List (List (Call ω))) (last new : List (Call ω)) (after : ω),
      obey (Sequential.executor ω) orders ⟨pending.map Call.result⟩ world =
        (archive.map (List.map Call.result), ⟨last.map Call.result⟩, after) ∧
      (archive.map (List.map Call.ticket), last.map Call.ticket) =
        Order.groups index (pending.map Call.ticket) orders ∧
      archive.flatten ++ last = pending ++ new ∧ Leads new world after := by
  induction orders generalizing index pending world with
  | nil => exact ⟨[], pending, [], world, rfl, rfl, (List.append_nil _).symm, rfl⟩
  | cons order orders ih =>
    cases order with
    | dispatch perform batch =>
      obtain ⟨calls, between, listed, dispatched, leads⟩ :=
        exists_calls_dispatch perform index batch pending world
      obtain ⟨archive, last, new, after, obeyed, groups, all, rest⟩ :=
        ih (index + 1) (pending ++ calls) between
      refine ⟨archive, last, calls ++ new, after, ?_, ?_, ?_, ?_⟩
      · simp only [obey, Sequential.executor, dispatched]
        exact obeyed
      · rw [groups, Order.groups, List.map_append, listed]
      · rw [all, List.append_assoc]
      · exact leads_append.mpr ⟨between, leads, rest⟩
    | await =>
      obtain ⟨archive, last, new, after, obeyed, groups, all, rest⟩ := ih index [] world
      refine ⟨pending :: archive, last, new, after, ?_, ?_, ?_, rest⟩
      · have fresh : obey (Sequential.executor ω) orders .initial world =
            (archive.map (List.map Call.result), ⟨last.map Call.result⟩, after) := obeyed
        simp only [Sequential.executor] at fresh
        simp only [obey, Sequential.executor, fresh, List.map_cons]
      · rw [List.map_nil] at groups
        rw [Order.groups, ← groups, List.map_cons]
      · rw [List.flatten_cons, List.append_assoc, all, List.nil_append]

end AllPairs.Execution
