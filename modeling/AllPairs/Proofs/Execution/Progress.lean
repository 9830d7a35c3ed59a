import AllPairs.Proofs.Execution.Workshop
import Mathlib.Logic.Relation

/-!
# Runs that come to an end

Nothing that happens in a workshop can go on forever: a job is started once, finishes once, and its
result is received once. And nothing gets stuck: as long as results are missing at the barrier, a
worker can start or finish a job, or a result can be received. Together the two say that whoever
waits at the barrier gets past it, in whatever order the workers are at work.
-/

namespace AllPairs.Execution

/-- Every run from a state comes to an end, whichever steps it takes, and a state in which no step
can be taken any more has the property. -/
structure EveryRun {α : Type} (step : α → α → Prop) (post : α → Prop) (start : α) : Prop where
  finite : Acc (fun next state => step state next) start
  ends : ∀ last, Relation.ReflTransGen step start last → (∀ next, ¬ step last next) → post last

/-- Runs are finite if every step leaves less work to do. -/
theorem acc_of_work {α : Type} {step : α → α → Prop} {work : α → Nat}
    (less : ∀ state next, step state next → work next < work state) (start : α) :
    Acc (fun next state => step state next) start := by
  apply Subrelation.accessible (r := fun next state => work next < work state)
  · intro next state move
    exact less state next move
  · exact (measure work).wf.apply start

namespace Workshop

variable {ω : Type} {shop shop' : Workshop ω}

/-- How many moves are left before everything that is in flight was received. -/
def effort (shop : Workshop ω) : Nat :=
  3 * shop.pool.queued.length + 2 * shop.pool.running.length + shop.pool.sent.length

theorem effort_spawn (shop : Workshop ω) (ticket : Ticket ω) :
    (shop.spawn ticket).effort = shop.effort + 3 := by
  unfold effort spawn Pool.spawn
  simp only [List.length_append, List.length_singleton]
  omega

@[simp]
theorem effort_pass (shop : Workshop ω) : shop.pass.effort = shop.effort := rfl

theorem Works.effort_lt (move : Works shop shop') : shop'.effort < shop.effort := by
  cases move with
  | start index job moved =>
    obtain ⟨queued, rest⟩ := Pool.start?_spec job moved
    have taken := queued.length_eq
    unfold effort
    rw [rest]
    simp only [List.length_append, List.length_cons, List.length_nil] at *
    omega
  | finish index job moved =>
    obtain ⟨running, -, rest⟩ := Pool.finish?_spec job moved
    have taken := running.length_eq
    unfold effort
    rw [rest]
    simp only [List.length_append, List.length_cons, List.length_nil] at *
    omega

theorem Receives.effort_lt (move : Receives shop shop') : shop'.effort < shop.effort := by
  cases move with
  | receive moved =>
    obtain ⟨oldest, rest⟩ := Pool.receive?_eq_some_iff.mp moved
    unfold effort
    rw [rest, oldest]
    simp only [List.length_cons]
    omega

/-- While results are missing there is something in flight that can move. -/
theorem exists_move (balanced : shop.pool.Balanced shop.received)
    (incomplete : shop.received.length < shop.pool.dispatched) :
    ∃ shop', shop.Works shop' ∨ shop.Receives shop' := by
  unfold Pool.Balanced at balanced
  cases sent : shop.pool.sent with
  | cons result rest =>
    have moved : shop.pool.receive? = some (result, { shop.pool with sent := rest }) :=
      Pool.receive?_eq_some_iff.mpr ⟨sent, rfl⟩
    exact ⟨_, .inr (.receive moved)⟩
  | nil =>
    cases running : shop.pool.running with
    | cons ticket rest =>
      have found : shop.pool.running[0]? = some ticket := by
        rw [running, List.getElem?_cons_zero]
      exact ⟨_, .inl (.finish 0 found (by rw [Pool.finish?, found]; rfl))⟩
    | nil =>
      cases queued : shop.pool.queued with
      | cons ticket rest =>
        have found : shop.pool.queued[0]? = some ticket := by
          rw [queued, List.getElem?_cons_zero]
        have free : shop.pool.running.length < shop.pool.workers := by
          rw [running]
          exact shop.pool.pos
        exact ⟨_, .inl (.start 0 found (by rw [Pool.start?, if_pos free, found]; rfl))⟩
      | nil =>
        rw [sent, running, queued] at balanced
        simp only [List.length_nil] at balanced
        omega

end Workshop
end AllPairs.Execution
