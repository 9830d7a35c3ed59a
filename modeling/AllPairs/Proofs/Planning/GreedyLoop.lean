import AllPairs.Planning.Algorithm
import AllPairs.Proofs.Planning.Feasible

/-!
# The loop of the greedy planner

While pairs wait, the planner closes another batch. A turn of the loop always admits the first pair
that waits, so the queue shrinks and the loop ends. Throughout, the closed batches are feasible, and
their tasks together with the waiting pairs and the pending diagonal tasks rearrange the workload.
-/

namespace AllPairs.Greedy

variable {width : Width} {workload : Workload}

/-! ## One sweep -/

/-- What a sweep admits is disjoint and keeps clear of the active partitions. -/
theorem disjoint_admitted {active : IndexSet} {size : Nat} {queue : List (Partition × Partition)}
    (proper : ∀ pair ∈ queue, pair.1 ≠ pair.2) :
    (Batch.ofPairs (sweep width active size queue).admitted).Disjoint ∧
      ∀ p ∈ (Batch.ofPairs (sweep width active size queue).admitted).partitions, p ∉ active := by
  fun_induction sweep width active size queue with
  | case1 => exact ⟨List.nodup_nil, by simp⟩
  | case2 active size first second rest free swept ih =>
    obtain ⟨different, others⟩ := List.forall_mem_cons.mp proper
    obtain ⟨disjoint, clear⟩ := ih others
    have outside : ∀ p ∈ (Batch.ofPairs swept.admitted).partitions,
        p ≠ second ∧ p ≠ first ∧ p ∉ active := by
      intro p hp
      simpa only [IndexSet.mem_insert, not_or] using clear p hp
    have partitions : (Batch.ofPairs ((first, second) :: swept.admitted)).partitions =
        first :: second :: (Batch.ofPairs swept.admitted).partitions := by
      simp
    refine ⟨?_, ?_⟩
    · rw [Batch.Disjoint, partitions, List.nodup_cons, List.nodup_cons, List.mem_cons, not_or]
      exact ⟨⟨different, fun hp => (outside first hp).2.1 rfl⟩, fun hp => (outside second hp).1 rfl,
        disjoint⟩
    · rw [partitions, List.forall_mem_cons, List.forall_mem_cons]
      exact ⟨free.2.1, free.2.2, fun p hp => (outside p hp).2.2⟩
  | case3 active size first second rest busy swept ih =>
    exact ih (List.forall_mem_cons.mp proper).2

/-- A sweep admits no more pairs than there is room for. -/
theorem allows_admitted {active : IndexSet} {size : Nat} {queue : List (Partition × Partition)}
    (allowed : width.Allows size) :
    width.Allows (size + (sweep width active size queue).admitted.length) := by
  fun_induction sweep width active size queue with
  | case1 => exact allowed
  | case2 active size first second rest free swept ih =>
    have := ih free.1.allows
    rwa [List.length_cons, Nat.add_comm swept.admitted.length, ← Nat.add_assoc]
  | case3 active size first second rest busy swept ih => exact ih allowed

theorem admitted_ne_nil (width : Width) {queue : List (Partition × Partition)} (waiting : queue ≠ []) :
    (sweep width .empty 0 queue).admitted ≠ [] := by
  obtain ⟨pair, rest, rfl⟩ := List.exists_cons_of_ne_nil waiting
  rw [sweep_empty_cons]
  exact List.cons_ne_nil _ _

/-! ## One turn of the loop -/

theorem feasible_closeBatch {queue : List (Partition × Partition)} (waiting : queue ≠ [])
    (proper : ∀ pair ∈ queue, pair.1 ≠ pair.2) (diagonals : List Partition) :
    (closeBatch width queue diagonals).batch.Feasible width := by
  have seeded : (Batch.ofPairs (sweep width .empty 0 queue).admitted).Feasible width := {
    nonempty := by simpa using admitted_ne_nil width waiting
    disjoint := (disjoint_admitted proper).1
    allowed := by
      have : width.Allows (0 + (sweep width .empty 0 queue).admitted.length) :=
        allows_admitted width.allows_zero
      rwa [Batch.size_ofPairs, ← Nat.zero_add (List.length _)] }
  exact seeded.backfilled diagonals

/-- A turn sends every waiting pair and every pending diagonal task to exactly one place. -/
theorem closeBatch_perm (width : Width) (queue : List (Partition × Partition))
    (diagonals : List Partition) :
    ((closeBatch width queue diagonals).batch.tasks ++
      ((Batch.ofPairs (closeBatch width queue diagonals).deferred).tasks ++
        (closeBatch width queue diagonals).diagonals.map Task.diagonal)).Perm
      ((Batch.ofPairs queue).tasks ++ diagonals.map Task.diagonal) := by
  have swept := (sweep_perm width .empty 0 queue).map fun pair => Task.cross pair.1 pair.2
  have filled := (Batch.ofPairs (sweep width .empty 0 queue).admitted).backfilled_perm width diagonals
  rw [List.perm_iff_count] at swept filled ⊢
  intro task
  have admitted := swept task
  have placed := filled task
  simp only [closeBatch, Batch.tasks_ofPairs, List.map_append, List.count_append]
    at admitted placed ⊢
  omega

/-! ## The loop -/

/-- Where the planner stands between two turns. -/
structure Stage where
  closed : List Batch
  queue : List (Partition × Partition)
  diagonals : List Partition

namespace Stage

/-- Nothing is planned yet. -/
def start (workload : Workload) : Stage :=
  ⟨[], workload.pairs, List.range workload.partitions⟩

/-- One turn: the next batch is closed. -/
def next (width : Width) (stage : Stage) : Stage :=
  let closing := closeBatch width stage.queue stage.diagonals
  ⟨stage.closed ++ [closing.batch], closing.deferred, closing.diagonals⟩

/-- The schedule that is made when no pair waits any more. -/
def schedule (partitions : Nat) (stage : Stage) : Schedule :=
  ⟨partitions, stage.closed ++ stage.diagonals.map fun partition => ⟨[.diagonal partition]⟩⟩

/-- The closed batches are feasible, and nothing was lost or repeated so far. -/
structure Sound (width : Width) (workload : Workload) (stage : Stage) : Prop where
  feasible : ∀ batch ∈ stage.closed, batch.Feasible width
  perm : (stage.closed.flatMap Batch.tasks ++
    ((Batch.ofPairs stage.queue).tasks ++ stage.diagonals.map Task.diagonal)).Perm workload.tasks

theorem start_sound (width : Width) (workload : Workload) : (start workload).Sound width workload :=
  ⟨by simp [start], .refl _⟩

theorem Sound.proper {stage : Stage} (h : stage.Sound width workload) :
    ∀ pair ∈ stage.queue, pair.1 ≠ pair.2 := by
  intro pair mem
  have listed : Task.cross pair.1 pair.2 ∈ workload.tasks := by
    refine h.perm.mem_iff.mp (List.mem_append_right _ (List.mem_append_left _ ?_))
    exact List.mem_map.mpr ⟨pair, mem, rfl⟩
  exact Nat.ne_of_lt (workload.cross_mem_tasks.mp listed).1

/-- A turn keeps what holds between turns. -/
theorem Sound.next {stage : Stage} (h : stage.Sound width workload) (waiting : stage.queue ≠ []) :
    (stage.next width).Sound width workload := by
  refine ⟨?_, ?_⟩
  · simp only [Stage.next, List.forall_mem_append, List.forall_mem_singleton]
    exact ⟨h.feasible, feasible_closeBatch waiting h.proper _⟩
  · simp only [Stage.next, List.flatMap_append, List.flatMap_singleton, List.append_assoc]
    exact ((closeBatch_perm width stage.queue stage.diagonals).append_left _).trans h.perm

/-- A turn takes at least the first pair out of the queue. -/
theorem length_queue_next_lt {stage : Stage} (waiting : stage.queue ≠ []) :
    (stage.next width).queue.length < stage.queue.length := by
  obtain ⟨pair, rest, split⟩ := List.exists_cons_of_ne_nil waiting
  simp only [Stage.next, split]
  exact length_deferred_closeBatch_lt ..

/-- The loop ends after as many turns as pairs wait or fewer. What it has then closed is what the
planner closes, and nothing was lost or repeated. -/
theorem exists_turns (width : Width) (stage : Stage) :
    ∃ turns ≤ stage.queue.length,
      (∀ turn < turns, ((Stage.next width)^[turn] stage).queue ≠ []) ∧
      ((Stage.next width)^[turns] stage).queue = [] ∧
      ((Stage.next width)^[turns] stage).closed =
        stage.closed ++ (closeBatches width stage.queue stage.diagonals).1 ∧
      ((Stage.next width)^[turns] stage).diagonals =
        (closeBatches width stage.queue stage.diagonals).2 := by
  obtain ⟨closed, queue, diagonals⟩ := stage
  fun_induction closeBatches width queue diagonals generalizing closed with
  | case1 diagonals => exact ⟨0, Nat.le_refl _, by simp, rfl, by simp, by simp⟩
  | case2 pair rest diagonals closing others left found ih =>
    obtain ⟨turns, bound, busy, done, batches, pending⟩ := ih (closed ++ [closing.batch])
    let stage : Stage := ⟨closed, pair :: rest, diagonals⟩
    have shorter : (stage.next width).queue.length < stage.queue.length :=
      length_queue_next_lt (List.cons_ne_nil pair rest)
    refine ⟨turns + 1, Nat.lt_of_le_of_lt bound shorter, ?_, done, ?_, ?_⟩
    · intro turn below
      cases turn with
      | zero => exact List.cons_ne_nil _ _
      | succ turn => exact busy turn (by omega)
    · rw [closeBatches_cons, Function.iterate_succ_apply]
      exact batches.trans (List.append_assoc ..)
    · rw [closeBatches_cons, Function.iterate_succ_apply]
      exact pending

theorem Sound.iterate {stage : Stage} (h : stage.Sound width workload) {turns : Nat}
    (busy : ∀ turn < turns, ((Stage.next width)^[turn] stage).queue ≠ []) :
    ((Stage.next width)^[turns] stage).Sound width workload := by
  induction turns with
  | zero => exact h
  | succ turns ih =>
    rw [Function.iterate_succ_apply']
    exact (ih fun turn below => busy turn (by omega)).next (busy turns (by omega))

/-- A sound stage in which no pair waits makes a schedule that fulfils what a planner owes. -/
theorem Sound.fulfils {stage : Stage} (h : stage.Sound width workload) (done : stage.queue = []) :
    Fulfils width workload (stage.schedule workload.partitions) := by
  refine fulfils_of_feasible ?_ ?_ rfl
  · simp only [schedule, List.forall_mem_append, List.forall_mem_map]
    exact ⟨h.feasible, fun p _ => Batch.feasible_diagonal width p⟩
  · have perm := h.perm
    rw [done] at perm
    simpa [Schedule.tasks, schedule, List.flatMap_map, ← List.map_eq_flatMap] using perm

end Stage

/-- The plan is what the loop has made when it ends, after no more turns than there are pairs. -/
theorem exists_turns_plan (width : Width) (workload : Workload) :
    ∃ turns ≤ workload.pairs.length,
      (∀ turn < turns, ((Stage.next width)^[turn] (Stage.start workload)).queue ≠ []) ∧
      ((Stage.next width)^[turns] (Stage.start workload)).queue = [] ∧
      plan width workload =
        ((Stage.next width)^[turns] (Stage.start workload)).schedule workload.partitions := by
  obtain ⟨turns, bound, busy, done, closed, diagonals⟩ :=
    Stage.exists_turns width (Stage.start workload)
  refine ⟨turns, bound, busy, done, ?_⟩
  rw [Stage.schedule, closed, diagonals]
  rfl

theorem plan_fulfils (width : Width) (workload : Workload) :
    Fulfils width workload (plan width workload) := by
  obtain ⟨turns, -, busy, done, planned⟩ := exists_turns_plan width workload
  rw [planned]
  exact ((Stage.start_sound width workload).iterate busy).fulfils done

/-- The greedy planner fulfils what it owes for every number of partitions and every width. Its loop
ends, after no more turns than there are pairs, with the planned schedule, and planning never
fails. -/
theorem greedy_fulfils (width : Width) (workload : Workload) :
    (∃ turns ≤ workload.pairs.length,
      (∀ turn < turns, ((Stage.next width)^[turn] (Stage.start workload)).queue ≠ []) ∧
      ((Stage.next width)^[turns] (Stage.start workload)).queue = [] ∧
      plan width workload =
        ((Stage.next width)^[turns] (Stage.start workload)).schedule workload.partitions) ∧
    Fulfils width workload (plan width workload) ∧
    (Algorithm.greedy.planner ⟨width⟩).schedule workload.partitions () =
      .ok (plan width workload, ()) := by
  have fulfils : Fulfils width workload (plan width workload) := plan_fulfils width workload
  exact ⟨exists_turns_plan width workload, fulfils, Planner.schedule_pure fulfils.accepted⟩

end AllPairs.Greedy
