import AllPairs.Proofs.Execution.Orders
import AllPairs.Proofs.Execution.Progress
import Mathlib.Algebra.Ring.Nat

/-!
# Every interleaving of a pool that is asked again and again

A session is a pool at work together with the client that owns it: the client makes one request after
the other, while workers start queued jobs and finish running ones in any order. What is left of one
request is there when the next one is made, whether that be jobs that no barrier has followed yet or
batches that were never dispatched because an earlier one was refused.

The books of the workshop balance in every state, and what is still to come completes them to the groups
of the requests. So a client that waits is never left waiting, and every run of a session comes to an
end with all requests met.
-/

namespace AllPairs.Execution

variable {ω : Type}

/-- Where the client stands. So many dispatches were made so far as `index` says. -/
inductive Client (ω : Type) where
  /-- About to make the next request. -/
  | ready (index : Nat) (requests : List (Request ω))
  /-- Dispatching the jobs of a batch, some of which are still to be dispatched. -/
  | dispatching (index : Nat) (todo : List (Ticket ω)) (requests : List (Request ω))
  /-- Waiting at a barrier. -/
  | awaiting (index : Nat) (requests : List (Request ω))

namespace Client

/-- The jobs that are still to be grouped, if `current` was dispatched since the last barrier. -/
def upcoming (current : List (Ticket ω)) : Client ω → List (List (Ticket ω)) × List (Ticket ω)
  | ready index requests => Order.groups index current (requests.flatMap Request.orders)
  | dispatching index todo requests =>
    Order.groups (index + 1) (current ++ todo) (requests.flatMap Request.orders)
  | awaiting index requests => Order.groups index current (.await :: requests.flatMap Request.orders)

/-- The client waits at a barrier. -/
def Waits (client : Client ω) : Prop :=
  ∃ index requests, client = awaiting index requests

end Client

/-- A client and the workshop that it owns. -/
structure Session (ω : Type) where
  client : Client ω
  shop : Workshop ω

namespace Session

/-- A pool of idle workers, and a client in front of its first request. -/
def initial (requests : List (Request ω)) (workers : Nat) (pos : 0 < workers) (world : ω) :
    Session ω :=
  ⟨.ready 0 requests, .opened (.ofWorkers workers pos) world⟩

/-- A step of the client or of a worker. -/
inductive Step : Session ω → Session ω → Prop where
  | accept {shop : Workshop ω} {index : Nat} {perform : Comparison ω} {batch : Batch}
      {batches : List Batch} {requests : List (Request ω)} (disjoint : batch.Disjoint) :
      Step ⟨.ready index (.execute perform (batch :: batches) :: requests), shop⟩
        ⟨.ready index (.give (.dispatch perform batch) :: .give .await ::
          .execute perform batches :: requests), shop⟩
  | refuse {shop : Workshop ω} {index : Nat} {perform : Comparison ω} {batch : Batch}
      {batches : List Batch} {requests : List (Request ω)} (clash : ¬ batch.Disjoint) :
      Step ⟨.ready index (.execute perform (batch :: batches) :: requests), shop⟩
        ⟨.ready index requests, shop⟩
  | leave {shop : Workshop ω} {index : Nat} {perform : Comparison ω}
      {requests : List (Request ω)} :
      Step ⟨.ready index (.execute perform [] :: requests), shop⟩ ⟨.ready index requests, shop⟩
  | dispatch {shop : Workshop ω} {index : Nat} {perform : Comparison ω} {batch : Batch}
      {requests : List (Request ω)} :
      Step ⟨.ready index (.give (.dispatch perform batch) :: requests), shop⟩
        ⟨.dispatching index (ticketsOf perform index batch) requests, shop⟩
  | spawn {shop : Workshop ω} {index : Nat} {ticket : Ticket ω} {todo : List (Ticket ω)}
      {requests : List (Request ω)} :
      Step ⟨.dispatching index (ticket :: todo) requests, shop⟩
        ⟨.dispatching index todo requests, shop.spawn ticket⟩
  | dispatched {shop : Workshop ω} {index : Nat} {requests : List (Request ω)} :
      Step ⟨.dispatching index [] requests, shop⟩ ⟨.ready (index + 1) requests, shop⟩
  | await {shop : Workshop ω} {index : Nat} {requests : List (Request ω)} :
      Step ⟨.ready index (.give .await :: requests), shop⟩ ⟨.awaiting index requests, shop⟩
  | receive {shop shop' : Workshop ω} {index : Nat} {requests : List (Request ω)}
      (incomplete : shop.received.length < shop.pool.dispatched) (move : shop.Receives shop') :
      Step ⟨.awaiting index requests, shop⟩ ⟨.awaiting index requests, shop'⟩
  | pass {shop : Workshop ω} {index : Nat} {requests : List (Request ω)}
      (complete : ¬ shop.received.length < shop.pool.dispatched) :
      Step ⟨.awaiting index requests, shop⟩ ⟨.ready index requests, shop.pass⟩
  | work {client : Client ω} {shop shop' : Workshop ω} (move : shop.Works shop') :
      Step ⟨client, shop⟩ ⟨client, shop'⟩

/-- A state that the session gets to in some interleaving. -/
def Reachable (start session : Session ω) : Prop :=
  Relation.ReflTransGen Step start session

end Session

/-! ## What holds in every state -/

/-- Moves of workers prolong the history by the calls that finish. -/
theorem Workshop.Works.leads {shop shop' : Workshop ω} {start : ω} (move : shop.Works shop')
    (history : Leads shop.performed start shop.world) :
    Leads shop'.performed start shop'.world := by
  cases move with
  | start => exact history
  | @finish index ticket pool world job moved =>
    obtain ⟨-, rfl, -⟩ := Pool.finish?_spec job moved
    exact leads_append.mpr ⟨shop.world, history, leads_run ticket shop.world⟩

theorem Workshop.Receives.leads {shop shop' : Workshop ω} {start : ω} (move : shop.Receives shop')
    (history : Leads shop.performed start shop.world) :
    Leads shop'.performed start shop'.world := by
  cases move with
  | receive moved => exact history

/-- The books of the workshop balance for the jobs `past`, which earlier barriers were for, and
`current`; what is still to come completes them to the groups of the requests. -/
structure Session.Books (start : ω) (requests : List (Request ω)) (past : List (List (Ticket ω)))
    (current : List (Ticket ω)) (archive : List (List (Call ω))) (done : List (Call ω))
    (session : Session ω) : Prop where
  accounts : session.shop.Accounts past current archive done
  history : Leads session.shop.performed start session.shop.world
  groups : (past ++ (session.client.upcoming current).1, (session.client.upcoming current).2) =
    Request.groups requests

/-- The books of the session balance. -/
def Session.Sound (start : ω) (requests : List (Request ω)) (session : Session ω) : Prop :=
  ∃ past current archive done, session.Books start requests past current archive done

namespace Session

variable {session session' : Session ω} {start : ω} {requests : List (Request ω)}

theorem sound_initial (requests : List (Request ω)) (workers : Nat) (pos : 0 < workers)
    (world : ω) : (initial requests workers pos world).Sound world requests :=
  ⟨[], [], [], [], Workshop.accounts_opened workers pos world, rfl, rfl⟩

/-- Every step keeps the books, whoever takes it. -/
theorem Sound.step (h : session.Sound start requests) (step : Step session session') :
    session'.Sound start requests := by
  obtain ⟨past, current, archive, done, accounts, history, groups⟩ := h
  cases step with
  | @accept shop index perform batch batches rest disjoint =>
    refine ⟨past, current, archive, done, accounts, history, ?_⟩
    rw [← groups]
    simp only [Client.upcoming, List.flatMap_cons,
      Request.orders_execute_cons_of_disjoint perform batches disjoint]
    rfl
  | @refuse shop index perform batch batches rest clash =>
    refine ⟨past, current, archive, done, accounts, history, ?_⟩
    rw [← groups]
    simp only [Client.upcoming, List.flatMap_cons,
      Request.orders_execute_cons_of_clash perform batches clash]
    rfl
  | leave => exact ⟨past, current, archive, done, accounts, history, groups⟩
  | dispatch => exact ⟨past, current, archive, done, accounts, history, groups⟩
  | @spawn shop index ticket todo rest =>
    refine ⟨past, current ++ [ticket], archive, done, accounts.spawn ticket, history, ?_⟩
    rw [← groups]
    simp only [Client.upcoming, List.append_assoc, List.singleton_append]
  | dispatched =>
    refine ⟨past, current, archive, done, accounts, history, ?_⟩
    rw [← groups]
    simp only [Client.upcoming, List.append_nil]
  | await => exact ⟨past, current, archive, done, accounts, history, groups⟩
  | receive _ move =>
    exact ⟨past, current, archive, done, accounts.receives move, move.leads history, groups⟩
  | pass complete =>
    refine ⟨past ++ [current], [], archive ++ [done], [], accounts.pass complete, history, ?_⟩
    rw [← groups]
    simp only [Client.upcoming, Order.groups, List.append_assoc, List.singleton_append]
  | work move =>
    obtain ⟨done', accounts'⟩ := accounts.works move
    exact ⟨past, current, archive, done', accounts', move.leads history, groups⟩

/-- The books balance in every state that can be reached. -/
theorem Reachable.sound {workers : Nat} {pos : 0 < workers} {world : ω}
    (reachable : Reachable (initial requests workers pos world) session) :
    session.Sound world requests := by
  induction reachable with
  | refl => exact sound_initial requests workers pos world
  | tail _ step ih => exact ih.step step

end Session

/-! ## Every run ends -/

/-- How many steps of the client a request takes at most, moves of its jobs included. -/
def Request.effort : Request ω → Nat
  | give (.dispatch _ batch) => 4 * batch.size + 2
  | give .await => 2
  | execute _ batches => 1 + (batches.map fun batch => 4 * batch.size + 5).sum

/-- How much the client has still to do. -/
def Client.effort : Client ω → Nat
  | ready _ requests => (requests.map Request.effort).sum
  | dispatching _ todo requests => 4 * todo.length + 1 + (requests.map Request.effort).sum
  | awaiting _ requests => 1 + (requests.map Request.effort).sum

namespace Session

variable {session session' : Session ω} {start : ω} {requests : List (Request ω)}

/-- How many steps are left at most. -/
def effort (session : Session ω) : Nat :=
  session.client.effort + session.shop.effort

theorem Step.effort_lt (step : Step session session') : session'.effort < session.effort := by
  cases step with
  | accept =>
    simp only [effort, Client.effort, List.map_cons, List.sum_cons, Request.effort]
    omega
  | refuse =>
    simp only [effort, Client.effort, List.map_cons, List.sum_cons, Request.effort]
    omega
  | leave =>
    simp only [effort, Client.effort, List.map_cons, List.sum_cons, Request.effort]
    omega
  | dispatch =>
    simp only [effort, Client.effort, List.map_cons, List.sum_cons, Request.effort, length_ticketsOf]
    omega
  | spawn =>
    simp only [effort, Client.effort, List.length_cons, Workshop.effort_spawn]
    omega
  | dispatched =>
    simp only [effort, Client.effort, List.length_nil]
    omega
  | await =>
    simp only [effort, Client.effort, List.map_cons, List.sum_cons, Request.effort]
    omega
  | receive _ move => exact Nat.add_lt_add_left move.effort_lt _
  | pass =>
    simp only [effort, Client.effort, Workshop.effort_pass]
    omega
  | work move => exact Nat.add_lt_add_left move.effort_lt _

theorem effort_lt_of_transGen (steps : Relation.TransGen Step session session') :
    session'.effort < session.effort := by
  induction steps with
  | single step => exact step.effort_lt
  | tail _ step ih => exact Nat.lt_trans step.effort_lt ih

end Session
end AllPairs.Execution
