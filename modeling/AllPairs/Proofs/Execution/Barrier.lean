import AllPairs.Proofs.Execution.SessionInOrder

/-!
# What is handed over at barriers

A barrier is for the jobs that were dispatched since the barrier before. In every state of a session the
results handed over so far are those of the calls for the barriers that were passed, in as many groups,
and a client that waits has something in flight to wait for.
-/

namespace AllPairs.Execution

variable {ω : Type}

/-- What is promised of a session in every state. -/
structure Session.Exact (start : ω) (requests : List (Request ω)) (session : Session ω) : Prop where
  /-- The world is what the calls of comparisons so far have made of it. -/
  history : Leads session.shop.performed start session.shop.world
  /-- Every barrier that was passed handed over the results of one call of each job of its group, and
  nothing else. -/
  handed : ∃ archive done, session.shop.performed = archive.flatten ++ done ∧
    session.shop.outcomes = archive.map (List.map Call.result) ∧
    List.Forall₂ (fun tickets calls => (calls.map Call.ticket).Perm tickets)
      ((Request.groups requests).1.take session.shop.outcomes.length) archive
  /-- While the client waits, what was dispatched is the group of this barrier, and all of it was
  received, is on its way, or is queued or running. -/
  counted : session.client.Waits →
    ∃ current, (Request.groups requests).1[session.shop.outcomes.length]? = some current ∧
      session.shop.pool.dispatched = current.length ∧
      session.shop.pool.dispatched = session.shop.received.length + session.shop.pool.sent.length +
        (session.shop.pool.queued.length + session.shop.pool.running.length)
  /-- While it waits for missing results, some of them are in flight and can move. -/
  alive : session.client.Waits → session.shop.received.length < session.shop.pool.dispatched →
    0 < session.shop.pool.sent.length +
        (session.shop.pool.queued.length + session.shop.pool.running.length) ∧
      ∃ shop', session.shop.Works shop' ∨ session.shop.Receives shop'

namespace Session

variable {session : Session ω} {start : ω} {requests : List (Request ω)}

namespace Books

variable {past : List (List (Ticket ω))} {current : List (Ticket ω)}
  {archive : List (List (Call ω))} {done : List (Call ω)}

theorem length_outcomes (h : session.Books start requests past current archive done) :
    session.shop.outcomes.length = past.length := by
  rw [h.accounts.outcomes, List.length_map, h.accounts.past.length_eq]

/-- The barriers that were passed were for the first groups. -/
theorem past_eq_take (h : session.Books start requests past current archive done) :
    past = (Request.groups requests).1.take session.shop.outcomes.length := by
  rw [h.length_outcomes, ← h.groups, List.take_left]

/-- A barrier at which the client waits is for the next group. -/
theorem current_of_waits (h : session.Books start requests past current archive done)
    (waits : session.client.Waits) :
    (Request.groups requests).1[session.shop.outcomes.length]? = some current := by
  obtain ⟨index, rest, stand⟩ := waits
  rw [h.length_outcomes, ← h.groups, stand]
  simp [Client.upcoming, Order.groups]

end Books

theorem Sound.exact (h : session.Sound start requests) : session.Exact start requests := by
  obtain ⟨past, current, archive, done, books⟩ := h
  have balanced := books.accounts.balanced
  refine ⟨books.history, ?_, ?_, ?_⟩
  · refine ⟨archive, done, books.accounts.performed, books.accounts.outcomes, ?_⟩
    rw [← books.past_eq_take]
    exact books.accounts.past
  · intro waits
    exact ⟨current, books.current_of_waits waits, books.accounts.dispatched, balanced⟩
  · intro _ incomplete
    refine ⟨?_, Workshop.exists_move balanced incomplete⟩
    unfold Pool.Balanced at balanced
    omega

end Session

/-! ## Main result -/

end AllPairs.Execution
