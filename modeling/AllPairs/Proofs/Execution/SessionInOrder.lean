import AllPairs.Proofs.Execution.InOrder
import AllPairs.Proofs.Execution.Session

/-!
# A session in dispatch order

The executor of a pool, asked again and again, is one of the interleavings of a session: whatever it was
left with by one request, it goes on with at the next one. So what holds of a session in every
interleaving holds of the executor.
-/

namespace AllPairs.Execution

variable {ω : Type}

/-- The workshop shows what an executor has come to, after the results that were there before, and waits
at no barrier. -/
structure Workshop.Shows (before : List (List TaskResult))
    (result : List (List TaskResult) × Pool (Job ω) × ω) (shop : Workshop ω) : Prop where
  outcomes : shop.outcomes = before ++ result.1
  pool : shop.pool.map Ticket.job = result.2.1
  world : shop.world = result.2.2
  received : shop.received = []
  balanced : shop.pool.Balanced shop.received

/-- What comes of more orders is shown after what came of the first ones. -/
theorem Workshop.Shows.append {before : List (List TaskResult)} {first second : List (Order ω)}
    {pool : Pool (Job ω)} {world : ω} {shop shop' : Workshop ω}
    (shows : shop.Shows before (obey (Pool.executor ω) first pool world))
    (later : shop'.Shows shop.outcomes
      (obey (Pool.executor ω) second (shop.pool.map Ticket.job) shop.world)) :
    shop'.Shows before (obey (Pool.executor ω) (first ++ second) pool world) := by
  rw [shows.pool, shows.world] at later
  rw [obey_append]
  exact {
    outcomes := by rw [later.outcomes, shows.outcomes, List.append_assoc]
    pool := later.pool
    world := later.world
    received := later.received
    balanced := later.balanced }

end AllPairs.Execution
