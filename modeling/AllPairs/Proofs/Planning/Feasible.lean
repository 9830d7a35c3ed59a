import AllPairs.Planning.Backfill
import AllPairs.Planning.Planner
import AllPairs.Proofs.ExactCover

/-!
# Feasible batches

Both planners form batches of cross tasks and fill them up with diagonal tasks. A batch is feasible
if it is not empty, disjoint, and no larger than the width allows; backfilling keeps it feasible and
moves a task from the pending diagonals to the batch, so that nothing is lost or repeated. Feasible
batches whose tasks rearrange the workload are an exact cover.
-/

namespace AllPairs

namespace Width

/-- A batch may hold this many tasks. -/
def Allows (width : Width) (size : Nat) : Prop :=
  ∀ limit ∈ width.limit?, size ≤ limit

theorem allows_unbounded (size : Nat) : unbounded.Allows size := by
  simp [Allows, limit?]

theorem allows_atMost {limit size : Nat} {pos : 0 < limit} :
    (atMost limit pos).Allows size ↔ size ≤ limit := by
  simp [Allows, limit?]

theorem limit_pos {width : Width} {limit : Nat} (given : limit ∈ width.limit?) : 0 < limit := by
  cases width with
  | unbounded => cases given
  | atMost bound pos =>
    obtain rfl := Option.some.inj given
    exact pos

theorem HasRoom.allows {width : Width} {size : Nat} (h : width.HasRoom size) :
    width.Allows (size + 1) := h

theorem allows_one (width : Width) : width.Allows 1 :=
  width.hasRoom_zero.allows

theorem allows_zero (width : Width) : width.Allows 0 :=
  fun limit _ => Nat.zero_le limit

end Width

/-- The backfilled partition is the first pending one that is not active; the others stay pending in
unchanged order. -/
theorem backfill_eq_some_iff {active pending left : List Partition} {p : Partition} :
    backfill active pending = some (p, left) ↔
      p ∉ active ∧ ∃ before after, pending = before ++ p :: after ∧ left = before ++ after ∧
        ∀ q ∈ before, q ∈ active := by
  induction pending generalizing left with
  | nil => simp [backfill]
  | cons q pending ih =>
    by_cases used : q ∈ active
    · simp only [backfill, used, if_true, Option.map_eq_some_iff]
      constructor
      · rintro ⟨⟨_, rest⟩, found, ⟨⟩⟩
        obtain ⟨free, before, after, rfl, rfl, earlier⟩ := ih.mp found
        exact ⟨free, q :: before, after, rfl, rfl, List.forall_mem_cons.mpr ⟨used, earlier⟩⟩
      · rintro ⟨free, before, after, split, rfl, earlier⟩
        cases before with
        | nil =>
          obtain ⟨rfl, rfl⟩ := List.cons.inj split
          exact absurd used free
        | cons r before =>
          obtain ⟨rfl, rfl⟩ := List.cons.inj split
          refine ⟨(p, before ++ after), ih.mpr ⟨free, before, after, rfl, rfl, ?_⟩, rfl⟩
          exact fun r hr => earlier r (List.mem_cons_of_mem _ hr)
    · simp only [backfill, used, if_false, Option.some.injEq, Prod.mk.injEq]
      constructor
      · rintro ⟨rfl, rfl⟩
        exact ⟨used, [], pending, rfl, rfl, by simp⟩
      · rintro ⟨free, before, after, split, rfl, earlier⟩
        cases before with
        | nil =>
          obtain ⟨rfl, rfl⟩ := List.cons.inj split
          exact ⟨rfl, rfl⟩
        | cons r before =>
          obtain ⟨rfl, rfl⟩ := List.cons.inj split
          exact absurd (earlier q List.mem_cons_self) used

/-- The lowest pending partition that is not active is backfilled. -/
theorem backfill_eq_some_of_lowest {active pending : List Partition} {p : Partition}
    (sorted : pending.Pairwise (· < ·)) (mem : p ∈ pending) (free : p ∉ active)
    (lowest : ∀ q ∈ pending, q < p → q ∈ active) :
    backfill active pending = some (p, pending.filter (· ≠ p)) := by
  obtain ⟨before, after, rfl⟩ := List.append_of_mem mem
  rw [List.pairwise_append, List.pairwise_cons] at sorted
  obtain ⟨-, ⟨above, -⟩, below⟩ := sorted
  rw [backfill_eq_some_iff]
  refine ⟨free, before, after, rfl, ?_, ?_⟩
  · have kept : before.filter (· ≠ p) = before := by
      rw [List.filter_eq_self]
      intro q hq
      exact decide_eq_true (Nat.ne_of_lt (below q hq p List.mem_cons_self))
    have keptAfter : after.filter (· ≠ p) = after := by
      rw [List.filter_eq_self]
      intro q hq
      exact decide_eq_true (Nat.ne_of_gt (above q hq))
    rw [List.filter_append, List.filter_cons, kept, keptAfter]
    simp
  · intro q hq
    exact lowest q (List.mem_append_left _ hq) (below q hq p List.mem_cons_self)

theorem backfill_perm {active pending left : List Partition} {p : Partition}
    (h : backfill active pending = some (p, left)) : (p :: left).Perm pending := by
  obtain ⟨-, before, after, rfl, rfl, -⟩ := backfill_eq_some_iff.mp h
  exact List.perm_middle.symm

theorem backfill_sublist {active pending left : List Partition} {p : Partition}
    (h : backfill active pending = some (p, left)) : left.Sublist pending := by
  obtain ⟨-, before, after, rfl, rfl, -⟩ := backfill_eq_some_iff.mp h
  exact (List.sublist_cons_self p after).append_left before

namespace Batch

/-- The batch can stand in a plan of this width. -/
structure Feasible (width : Width) (batch : Batch) : Prop where
  nonempty : batch.tasks ≠ []
  disjoint : batch.Disjoint
  allowed : width.Allows batch.size

variable {width : Width}

/-- A batch that is full or meets every pending partition stays as it is; otherwise the first pending
partition that it does not meet moves to it. -/
theorem backfilled_cases (width : Width) (batch : Batch) (pending : List Partition) :
    batch.backfilled width pending = (batch, pending) ∧
        (width.HasRoom batch.size → ∀ p ∈ pending, p ∈ batch.partitions) ∨
      ∃ p left, batch.backfilled width pending = (batch.push (.diagonal p), left) ∧
        width.HasRoom batch.size ∧ backfill batch.partitions pending = some (p, left) := by
  unfold backfilled
  by_cases room : width.HasRoom batch.size
  · rw [if_pos room]
    cases search : backfill batch.partitions pending with
    | none => exact .inl ⟨rfl, fun _ => backfill_eq_none_iff.mp search⟩
    | some found => exact .inr ⟨found.1, found.2, rfl, room, rfl⟩
  · rw [if_neg room]
    exact .inl ⟨rfl, fun h => absurd h room⟩

/-- Backfilling loses no task and repeats none. -/
theorem backfilled_perm (width : Width) (batch : Batch) (pending : List Partition) :
    ((batch.backfilled width pending).1.tasks ++
      (batch.backfilled width pending).2.map Task.diagonal).Perm
      (batch.tasks ++ pending.map Task.diagonal) := by
  obtain ⟨same, -⟩ | ⟨p, left, moved, -, found⟩ := batch.backfilled_cases width pending
  · rw [same]
  · rw [moved]
    simpa [push] using ((backfill_perm found).map Task.diagonal).append_left batch.tasks

theorem backfilled_sublist (width : Width) (batch : Batch) (pending : List Partition) :
    (batch.backfilled width pending).2.Sublist pending := by
  obtain ⟨same, -⟩ | ⟨p, left, moved, -, found⟩ := batch.backfilled_cases width pending
  · rw [same]
  · rw [moved]
    exact backfill_sublist found

theorem Feasible.backfilled {batch : Batch} (h : batch.Feasible width) (pending : List Partition) :
    (batch.backfilled width pending).1.Feasible width := by
  obtain ⟨same, -⟩ | ⟨p, left, moved, room, found⟩ := batch.backfilled_cases width pending
  · rw [same]
    exact h
  · have free := (backfill_eq_some_iff.mp found).1
    rw [moved]
    refine ⟨by simp [push], ?_, ?_⟩
    · rw [Disjoint, partitions_push]
      exact h.disjoint.append (List.nodup_singleton p) (by simpa [Task.partitions] using free)
    · rw [size_push]
      exact room.allows

/-- Filling up batches one after another loses no task and repeats none. -/
theorem backfillEach_perm (width : Width) (batches : List Batch) (pending : List Partition) :
    ((backfillEach width batches pending).1.flatMap tasks ++
      (backfillEach width batches pending).2.map Task.diagonal).Perm
      (batches.flatMap tasks ++ pending.map Task.diagonal) := by
  induction batches generalizing pending with
  | nil => exact .refl _
  | cons batch batches ih =>
    have filled := batch.backfilled_perm width pending
    have others := ih (batch.backfilled width pending).2
    simp only [backfillEach, List.flatMap_cons, List.append_assoc]
    refine (others.append_left _).trans ?_
    rw [List.perm_iff_count] at filled ⊢
    intro task
    have counts := filled task
    simp only [List.count_append] at counts ⊢
    omega

theorem backfillEach_sublist (width : Width) (batches : List Batch) (pending : List Partition) :
    (backfillEach width batches pending).2.Sublist pending := by
  induction batches generalizing pending with
  | nil => exact .refl _
  | cons batch batches ih => exact (ih _).trans (batch.backfilled_sublist width pending)

theorem feasible_backfillEach {batches : List Batch} (pending : List Partition)
    (feasible : ∀ batch ∈ batches, batch.Feasible width) :
    ∀ batch ∈ (backfillEach width batches pending).1, batch.Feasible width := by
  induction batches generalizing pending with
  | nil => simp [backfillEach]
  | cons batch batches ih =>
    obtain ⟨first, others⟩ := List.forall_mem_cons.mp feasible
    exact List.forall_mem_cons.mpr ⟨first.backfilled pending, ih _ others⟩

theorem feasible_diagonal (width : Width) (p : Partition) :
    Feasible width ⟨[.diagonal p]⟩ :=
  ⟨by simp, List.nodup_singleton p, width.allows_one⟩

@[simp]
theorem partitions_ofPairs (pairs : List (Partition × Partition)) :
    (ofPairs pairs).partitions = pairs.flatMap fun pair => [pair.1, pair.2] := by
  simp [partitions, ofPairs, List.flatMap_map, Task.partitions]

@[simp]
theorem size_ofPairs (pairs : List (Partition × Partition)) :
    (ofPairs pairs).size = pairs.length := by
  simp [size, ofPairs]

theorem length_partitions_ofPairs (pairs : List (Partition × Partition)) :
    (ofPairs pairs).partitions.length = 2 * pairs.length := by
  simp [List.length_flatMap, Nat.mul_comm]

@[simp]
theorem tasks_ofPairs (pairs : List (Partition × Partition)) :
    (ofPairs pairs).tasks = pairs.map fun pair => .cross pair.1 pair.2 := rfl

end Batch

/-- What a planner owes: the schedule is an exact cover of the workload, the validator accepts it, it
states the right number of partitions, and no batch is larger than the width allows. -/
structure Fulfils (width : Width) (workload : Workload) (schedule : Schedule) : Prop where
  cover : ExactCover workload schedule
  accepted : schedule.validate workload = .ok ()
  partitions : schedule.partitions = workload.partitions
  allowed : ∀ batch ∈ schedule.batches, width.Allows batch.size

variable {width : Width} {workload : Workload} {schedule : Schedule}

theorem fulfils_of_feasible (feasible : ∀ batch ∈ schedule.batches, batch.Feasible width)
    (perm : schedule.tasks.Perm workload.tasks)
    (partitions : schedule.partitions = workload.partitions) :
    Fulfils width workload schedule := by
  have normal : workload.tasks.map Task.normalized = workload.tasks :=
    (List.map_congr_left fun _ mem => workload.normalized_eq_of_mem_tasks mem).trans (List.map_id _)
  have disjoint := fun batch hb => Batch.disjoint_iff.mp (feasible batch hb).disjoint
  have cover : ExactCover workload schedule := {
    nonempty := fun batch hb => (feasible batch hb).nonempty
    apart := fun batch hb => (disjoint batch hb).2
    proper := fun batch hb => (disjoint batch hb).1
    perm := normal ▸ perm.map Task.normalized }
  exact ⟨cover, Schedule.validate_eq_ok_iff.mpr cover, partitions,
    fun batch hb => (feasible batch hb).allowed⟩

/-- Asking a planner without memory for a schedule that the validator accepts succeeds. -/
theorem Planner.schedule_pure {name : String} {plan : Workload → Schedule}
    (accepted : (plan workload).validate workload = .ok ()) :
    (Planner.pure name plan).schedule workload.partitions () = .ok (plan workload, ()) := by
  simp [Planner.schedule, Planner.pure, accepted]

end AllPairs
