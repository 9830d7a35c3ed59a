import AllPairs.Proofs.FirstViolation
import AllPairs.Schedule.Edit

/-!
# Single edits of an accepted schedule

What an accepted schedule promises does not depend on the order of its batches, nor on how its cross
tasks are written. Whatever takes a task away leaves something missing, unless it leaves an empty batch
behind, which is found first. A task that is added either does not belong to the workload or is there
already: then the report depends on where the two stand, but it is always about the new task. Two batches
can be merged exactly if they share no partition.
-/

namespace AllPairs

/-! ## Edits at a position -/

section Position

variable {α : Type}

theorem modify_at_split (before after : List α) (item : α) (change : α → α) :
    (before ++ item :: after).modify before.length change = before ++ change item :: after := by
  simp [List.modify_eq_take_cons_drop]

theorem eraseIdx_at_split (before after : List α) (item : α) :
    (before ++ item :: after).eraseIdx before.length = before ++ after := by
  simp [List.eraseIdx_eq_take_drop_succ]

theorem insertIdx_at_split (before after : List α) (item : α) :
    (before ++ after).insertIdx before.length item = before ++ item :: after := by
  induction before with
  | nil => rfl
  | cons first before ih => simpa using ih

theorem sublist_of_split (before after : List α) (item : α) :
    (before ++ after).Sublist (before ++ item :: after) :=
  (List.sublist_cons_self item after).append_left before

theorem concat_sublist_of_split (before after : List α) (item : α) :
    (before ++ [item]).Sublist (before ++ item :: after) :=
  (List.singleton_sublist.mpr List.mem_cons_self).append_left before

theorem exists_split_of_le {items : List α} {index : Nat} (inside : index ≤ items.length) :
    ∃ before after, items = before ++ after ∧ before.length = index :=
  ⟨items.take index, items.drop index, (List.take_append_drop index items).symm,
    List.length_take_of_le inside⟩

/-- A change that a function does not see is not seen in the list. -/
theorem map_modify_of_unseen {β : Type} {change : α → α} {view : α → β}
    (unseen : ∀ item, view (change item) = view item) (items : List α) (index : Nat) :
    (items.modify index change).map view = items.map view := by
  refine List.ext_getElem? fun i => ?_
  rw [List.getElem?_map, List.getElem?_modify, List.getElem?_map]
  cases items[i]? with
  | none => rfl
  | some item =>
    simp only [Option.map_eq_map, Option.map_some]
    split
    · rw [unseen]
    · rfl

theorem Edit.swapAt_perm (items : List α) (first second : Nat) :
    (swapAt items first second).Perm items := by
  unfold swapAt
  split
  · rename_i a b left right
    obtain ⟨insideLeft, rfl⟩ := List.getElem?_eq_some_iff.mp left
    obtain ⟨insideRight, rfl⟩ := List.getElem?_eq_some_iff.mp right
    exact List.set_set_perm insideLeft insideRight
  · exact .refl _

end Position

variable {workload : Workload} {schedule : Schedule}

/-! ## What stays of an accepted schedule -/

/-- Wherever a task stands, its normalized form is part of the work. -/
theorem perm_workOf_task (earlier later : List Batch) (before after : List Task) (task : Task) :
    (workOf (earlier ++ ⟨before ++ task :: after⟩ :: later)).Perm
      (task.normalized :: workOf (earlier ++ ⟨before ++ after⟩ :: later)) := by
  simp only [workOf_append, workOf_cons, List.map_append, List.map_cons, List.append_assoc,
    List.cons_append]
  rw [← List.append_assoc, ← List.append_assoc]
  exact List.perm_middle

theorem workOf_eq_flatMap_normalized (batches : List Batch) :
    workOf batches = (batches.map Batch.normalized).flatMap Batch.tasks := by
  rw [workOf, List.map_flatMap, List.flatMap_map]
  rfl

theorem Batch.pairwise_apart_normalized {batch : Batch} :
    batch.normalized.tasks.Pairwise Task.Apart ↔ batch.tasks.Pairwise Task.Apart := by
  simp [normalized, List.pairwise_map]

/-- The first partition of a normalized batch with a property, found task by task. -/
theorem Batch.find?_partitions_normalized (batch : Batch) (property : Partition → Bool) :
    batch.normalized.partitions.find? property =
      batch.tasks.findSome? fun task => task.normalized.partitions.find? property := by
  rw [partitions, List.find?_flatMap, normalized, List.findSome?_map]
  rfl

namespace ExactCover

variable (cover : ExactCover workload schedule)

include cover

theorem clean : CleanBatches workload schedule.batches :=
  (exactCover_iff.mp cover).1

/-- Neither the order of the batches nor the way in which cross tasks are written matters. -/
theorem rearranged {other : Schedule}
    (perm : (other.batches.map Batch.normalized).Perm (schedule.batches.map Batch.normalized)) :
    ExactCover workload other := by
  have covered : (workOf other.batches).Perm workload.tasks := by
    have same := perm.flatMap_right Batch.tasks
    rw [← workOf_eq_flatMap_normalized, ← workOf_eq_flatMap_normalized] at same
    exact same.trans cover.perm
  have likewise : ∀ batch ∈ other.batches, ∃ twin ∈ schedule.batches,
      twin.normalized = batch.normalized :=
    fun batch mem => List.mem_map.mp (perm.mem_iff.mp (List.mem_map_of_mem mem))
  refine ⟨fun batch mem empty => ?_, fun batch mem => ?_, fun batch mem task ht => ?_, covered⟩
  · obtain ⟨twin, there, same⟩ := likewise batch mem
    simp only [Batch.normalized, Batch.mk.injEq, empty, List.map_nil, List.map_eq_nil_iff] at same
    exact cover.nonempty twin there same
  · obtain ⟨twin, there, same⟩ := likewise batch mem
    rw [← Batch.pairwise_apart_normalized, ← same, Batch.pairwise_apart_normalized]
    exact cover.apart twin there
  · have here : task.normalized ∈ workOf other.batches :=
      List.mem_map_of_mem (List.mem_flatMap.mpr ⟨batch, mem, ht⟩)
    exact workload.proper_of_contains (workload.normalized_mem_tasks.mp (covered.mem_iff.mp here))

/-- In a batch of an accepted schedule no partition occurs twice. -/
theorem count_le_one {batch : Batch} (mem : batch ∈ schedule.batches) (p : Partition) :
    batch.partitions.count p ≤ 1 :=
  List.nodup_iff_count_le_one.mp (cover.disjoint batch mem) p

end ExactCover

theorem CleanTasks.sublist {earlier : List Batch} {tasks fewer : List Task}
    (clean : CleanTasks workload earlier tasks) (sub : fewer.Sublist tasks) :
    CleanTasks workload earlier fewer where
  contains task mem := clean.contains task (sub.mem mem)
  apart := clean.apart.sublist sub
  fresh task mem := clean.fresh task (sub.mem mem)

namespace CleanBatches

variable {earlier later : List Batch}

/-- Batches stay clean if one of them loses tasks, but not all of them. -/
theorem shrunk {batch fewer : Batch} (clean : CleanBatches workload (earlier ++ batch :: later))
    (sub : fewer.tasks.Sublist batch.tasks) (some : fewer.tasks ≠ []) :
    CleanBatches workload (earlier ++ fewer :: later) := by
  have tasks : ((earlier ++ fewer :: later).flatMap Batch.tasks).Sublist
      ((earlier ++ batch :: later).flatMap Batch.tasks) := by
    simp only [List.flatMap_append, List.flatMap_cons]
    exact (List.Sublist.refl _).append (sub.append (List.Sublist.refl _))
  obtain ⟨nonempty, contains, apart, nodup⟩ := clean
  rw [List.forall_mem_append, List.forall_mem_cons] at nonempty apart
  refine ⟨?_, fun task mem => contains task (tasks.mem mem), ?_, ?_⟩
  · rw [List.forall_mem_append, List.forall_mem_cons]
    exact ⟨nonempty.1, some, nonempty.2.2⟩
  · rw [List.forall_mem_append, List.forall_mem_cons]
    exact ⟨apart.1, apart.2.1.sublist sub, apart.2.2⟩
  · exact nodup.sublist (tasks.map Task.normalized)

/-- The batches before a batch are clean, and so are its tasks behind them. -/
theorem start {batch : Batch} (clean : CleanBatches workload (earlier ++ batch :: later)) :
    CleanBatches workload earlier ∧ CleanTasks workload earlier batch.tasks := by
  have upTo := clean.sublist (concat_sublist_of_split earlier later batch)
  obtain ⟨ahead, -, tasks⟩ := cleanBatches_concat.mp upTo
  exact ⟨ahead, tasks⟩

end CleanBatches

theorem Workload.First.congr {property other : Task → Prop} {task : Task}
    (first : workload.First property task) (same : ∀ t ∈ workload.tasks, property t ↔ other t) :
    workload.First other task := by
  obtain ⟨holds, before, after, split, none⟩ := first
  refine ⟨(same task (by simp [split])).mp holds, before, after, split, fun t mem => ?_⟩
  exact fun fit => none t mem ((same t (by simp [split, mem])).mpr fit)

namespace Schedule

/-! ## What a report requires -/

theorem exists_not_contained_of_foreign {index : Nat} {task : Task}
    (reported : schedule.validate workload = .error (.foreign index task)) :
    ∃ written ∈ schedule.tasks, ¬ workload.Contains written := by
  rw [validate_eq_error_iff] at reported
  cases reported with
  | atTask split clean start blames =>
    cases blames with
    | foreign outside => exact ⟨_, by simp [tasks, split], outside⟩

theorem two_le_count_of_overlap {index : Nat} {p : Partition}
    (reported : schedule.validate workload = .error (.overlap index p)) :
    ∃ batch, schedule.batches[index]? = some batch ∧ 2 ≤ batch.partitions.count p := by
  rw [validate_eq_error_iff] at reported
  cases reported with
  | @atTask earlier later before after written _ split clean start blames =>
    cases blames with
    | overlap inside mem used lowest =>
      refine ⟨⟨before ++ written :: after⟩, by simp [split], ?_⟩
      have here := List.count_pos_iff.mpr mem
      have before := List.count_pos_iff.mpr used
      simp only [Batch.partitions, List.flatMap_append, List.flatMap_cons, List.count_append]
      omega

theorem two_le_count_of_duplicate {task : Task}
    (reported : schedule.validate workload = .error (.duplicate task)) :
    2 ≤ (workOf schedule.batches).count task := by
  rw [validate_eq_error_iff] at reported
  cases reported with
  | atTask split clean start blames =>
    cases blames with
    | duplicate inside free again =>
      have before := List.count_pos_iff.mpr again
      simp only [split, workOf_append, workOf_cons, List.map_append, List.map_cons,
        List.count_append, List.count_cons_self]
      omega

/-- If clean batches lack nothing but some tasks, then the first one of these is reported. -/
theorem validate_of_gone {gone : List Task} (clean : CleanBatches workload schedule.batches)
    (complement : (workOf schedule.batches ++ gone).Perm workload.tasks) (some : gone ≠ []) :
    ∃ task, workload.First (· ∈ gone) task ∧
      schedule.validate workload = .error (.missing task) := by
  obtain ⟨task, mem⟩ := List.exists_mem_of_ne_nil gone some
  have absent : ∀ other ∈ workload.tasks, other ∈ gone ↔ other ∉ workOf schedule.batches := by
    intro other inside
    have unique := complement.nodup_iff.mpr workload.nodup_tasks
    have either := List.mem_append.mp (complement.mem_iff.mpr inside)
    exact ⟨fun left scheduled => List.disjoint_of_nodup_append unique scheduled left,
      either.resolve_left⟩
  obtain ⟨first, gone⟩ :=
    Workload.exists_first (complement.mem_iff.mp (List.mem_append_right _ mem)) mem
  exact ⟨first, gone, validate_eq_missing_iff.mpr ⟨clean, gone.congr absent⟩⟩

/-! ## The edits -/

variable {index position : Nat} {batch : Batch} {task : Task}

/-- A task that is put into a batch parts it. -/
theorem exists_split_of_insertTask (found : schedule.batches[index]? = some batch)
    (inside : position ≤ batch.size) (task : Task) :
    ∃ earlier later before after, batch = ⟨before ++ after⟩ ∧ earlier.length = index ∧
      schedule.batches = earlier ++ ⟨before ++ after⟩ :: later ∧
      (schedule.edit (.insertTask index position task)).batches =
        earlier ++ ⟨before ++ task :: after⟩ :: later := by
  obtain ⟨earlier, later, split, rfl⟩ := exists_split_of_getElem? found
  obtain ⟨tasks⟩ := batch
  obtain ⟨before, after, rfl, rfl⟩ := exists_split_of_le inside
  refine ⟨earlier, later, before, after, rfl, rfl, split, ?_⟩
  simp only [edit, mapBatches, split, modify_at_split, Batch.mapTasks, insertIdx_at_split]

section Edited

variable (cover : ExactCover workload schedule)

include cover

theorem exactCover_swapBatches (first second : Nat) :
    ExactCover workload (schedule.edit (.swapBatches first second)) :=
  cover.rearranged ((Edit.swapAt_perm schedule.batches first second).map Batch.normalized)

theorem exactCover_flipTask (batch index : Nat) :
    ExactCover workload (schedule.edit (.flipTask batch index)) := by
  have unseen : ∀ batch : Batch,
      (batch.mapTasks fun tasks => tasks.modify index Task.flipped).normalized = batch.normalized :=
    fun batch => congrArg Batch.mk
      (map_modify_of_unseen Task.normalized_flipped batch.tasks index)
  refine cover.rearranged (List.Perm.of_eq ?_)
  exact map_modify_of_unseen unseen schedule.batches batch

theorem validate_removeBatch (found : schedule.batches[index]? = some batch) :
    ∃ task, workload.First (· ∈ batch.tasks.map Task.normalized) task ∧
      (schedule.edit (.removeBatch index)).validate workload = .error (.missing task) := by
  obtain ⟨earlier, later, split, rfl⟩ := exists_split_of_getElem? found
  have edited : (schedule.edit (.removeBatch earlier.length)).batches = earlier ++ later := by
    simp only [edit, mapBatches, split, eraseIdx_at_split]
  have work : (workOf (earlier ++ later) ++ batch.tasks.map Task.normalized).Perm
      (workOf schedule.batches) := by
    rw [split, workOf_append, workOf_append, workOf_cons, List.append_assoc]
    exact List.perm_append_comm.append_left _
  have clean := cover.clean
  rw [split] at clean
  refine validate_of_gone ?_ ?_ ?_
  · rw [edited]
    exact clean.sublist (sublist_of_split earlier later batch)
  · rw [edited]
    exact work.trans cover.perm
  · rw [Ne, List.map_eq_nil_iff]
    exact clean.nonempty batch (by simp)

theorem validate_removeTask (found : schedule.batches[index]? = some batch)
    (stands : batch.tasks[position]? = some task) :
    (schedule.edit (.removeTask index position)).validate workload =
      .error (if batch.size = 1 then .emptyBatch index else .missing task.normalized) := by
  obtain ⟨earlier, later, split, rfl⟩ := exists_split_of_getElem? found
  obtain ⟨tasks⟩ := batch
  obtain ⟨before, after, rfl, rfl⟩ := exists_split_of_getElem? stands
  have edited : (schedule.edit (.removeTask earlier.length before.length)).batches =
      earlier ++ ⟨before ++ after⟩ :: later := by
    simp only [edit, mapBatches, split, modify_at_split, Batch.mapTasks, eraseIdx_at_split]
  have clean := cover.clean
  rw [split] at clean
  have size : (Batch.mk (before ++ task :: after)).size = (before ++ after).length + 1 := by
    simp only [Batch.size, List.length_append, List.length_cons]
    omega
  rw [size]
  by_cases alone : before ++ after = []
  · rw [alone] at edited ⊢
    exact validate_of_firstViolation (.emptyBatch edited clean.start.1)
  · have more : (before ++ after).length + 1 ≠ 1 := by
      rw [Ne, Nat.succ_inj, List.length_eq_zero_iff]
      exact alone
    rw [if_neg more]
    have fewer := clean.shrunk (sublist_of_split before after task) alone
    have complement : (workOf (earlier ++ ⟨before ++ after⟩ :: later) ++ [task.normalized]).Perm
        workload.tasks := by
      have work := perm_workOf_task earlier later before after task
      rw [← split] at work
      exact ((List.perm_append_singleton _ _).trans work.symm).trans cover.perm
    rw [← edited] at complement
    obtain ⟨gone, ⟨mem, -⟩, reported⟩ :=
      validate_of_gone (edited ▸ fewer) complement (List.cons_ne_nil _ _)
    rw [reported, List.mem_singleton.mp mem]

theorem validate_insertBatch_nil (inside : index ≤ schedule.size) :
    (schedule.edit (.insertBatch index [])).validate workload = .error (.emptyBatch index) := by
  obtain ⟨earlier, later, split, rfl⟩ := exists_split_of_le inside
  have edited : (schedule.edit (.insertBatch earlier.length [])).batches =
      earlier ++ .empty :: later := by
    simp only [edit, mapBatches, split, insertIdx_at_split]
    rfl
  have clean := cover.clean
  rw [split] at clean
  exact validate_of_firstViolation (.emptyBatch edited (clean.sublist (List.sublist_append_left _ _)))

theorem validate_insertTask_of_not_contains (found : schedule.batches[index]? = some batch)
    (inside : position ≤ batch.size) (outside : ¬ workload.Contains task) :
    (schedule.edit (.insertTask index position task)).validate workload =
      .error (.foreign index task.normalized) := by
  obtain ⟨earlier, later, before, after, rfl, rfl, split, edited⟩ :=
    exists_split_of_insertTask found inside task
  have clean := cover.clean
  rw [split] at clean
  obtain ⟨ahead, tasks⟩ := clean.start
  have start := tasks.sublist (List.sublist_append_left before after)
  exact validate_of_firstViolation (.atTask edited ahead start (.foreign outside))

/-- With one task of the workload more, an accepted schedule is rejected, and if no batch is empty then
either for an overlap or for that task. -/
theorem overlap_or_duplicate_of_more {edited : Schedule}
    (nonempty : ∀ batch ∈ edited.batches, batch.tasks ≠ []) (contained : workload.Contains task)
    (more : (workOf edited.batches).Perm (task.normalized :: workOf schedule.batches)) :
    (∃ index p, edited.validate workload = .error (.overlap index p)) ∨
      edited.validate workload = .error (.duplicate task.normalized) := by
  have rejected : ¬ ExactCover workload edited := by
    intro again
    have longer := (more.symm.trans again.perm).length_eq
    rw [← cover.perm.length_eq] at longer
    exact absurd longer (Nat.succ_ne_self _)
  obtain ⟨violation, first⟩ := exists_firstViolation rejected
  have reported := validate_of_firstViolation first
  cases violation with
  | emptyBatch index =>
    obtain ⟨empty, -⟩ := validate_eq_emptyBatch_iff.mp reported
    exact absurd rfl (nonempty .empty (List.mem_of_getElem? empty))
  | overlap index p => exact .inl ⟨index, p, reported⟩
  | duplicate again =>
    have twice := two_le_count_of_duplicate reported
    have once := List.nodup_iff_count_le_one.mp cover.clean.nodup again
    rw [more.count_eq, List.count_cons] at twice
    split at twice
    · rename_i same
      exact .inr (eq_of_beq same ▸ reported)
    · exact absurd once (Nat.not_le.mpr twice)
  | foreign index written =>
    obtain ⟨written, mem, outside⟩ := exists_not_contained_of_foreign reported
    rw [← workload.normalized_mem_tasks] at outside contained
    rcases List.mem_cons.mp (more.mem_iff.mp (List.mem_map_of_mem mem)) with same | old
    · exact absurd (same ▸ contained) outside
    · exact absurd (cover.perm.mem_iff.mp old) outside
  | missing gone =>
    obtain ⟨-, absent, _, _, there, -⟩ := validate_eq_missing_iff.mp reported
    have old := cover.perm.mem_iff.mpr (there ▸ List.mem_append_right _ (List.mem_cons_self ..))
    exact absurd (more.mem_iff.mpr (List.mem_cons_of_mem _ old)) absent

theorem validate_insertTask_of_contains (found : schedule.batches[index]? = some batch)
    (inside : position ≤ batch.size) (contained : workload.Contains task) :
    (∃ p ∈ task.partitions, p ∈ batch.partitions ∧
      (schedule.edit (.insertTask index position task)).validate workload =
        .error (.overlap index p)) ∨
    (schedule.edit (.insertTask index position task)).validate workload =
      .error (.duplicate task.normalized) := by
  have elsewhere : ∀ other, other ≠ index →
      (schedule.edit (.insertTask index position task)).batches[other]? = schedule.batches[other]? :=
    fun other ne => List.getElem?_modify_ne _ schedule.batches ne.symm
  obtain ⟨earlier, later, before, after, rfl, rfl, split, edited⟩ :=
    exists_split_of_insertTask found inside task
  have nonempty := cover.nonempty
  rw [split, List.forall_mem_append, List.forall_mem_cons] at nonempty
  have stillNonempty : ∀ batch ∈ earlier ++ ⟨before ++ task :: after⟩ :: later, batch.tasks ≠ [] := by
    rw [List.forall_mem_append, List.forall_mem_cons]
    exact ⟨nonempty.1, by simp, nonempty.2.2⟩
  have more := perm_workOf_task earlier later before after task
  rw [← edited] at stillNonempty
  rw [← edited, ← split] at more
  refine (overlap_or_duplicate_of_more cover stillNonempty contained more).imp_left ?_
  rintro ⟨index, p, reported⟩
  -- The partition occurs twice in the batch that is named. In a batch of the accepted schedule it does
  -- not, and the new task has it no more than once, so the two share it.
  obtain ⟨batch, place, twice⟩ := two_le_count_of_overlap reported
  by_cases here : index = earlier.length
  · subst here
    rw [edited, List.getElem?_append_right (Nat.le_refl _), Nat.sub_self,
      List.getElem?_cons_zero, Option.some.injEq] at place
    have old := cover.count_le_one (List.mem_of_getElem? found) p
    have proper := Task.nodup_partitions.mpr (workload.proper_of_contains contained)
    have new := List.nodup_iff_count_le_one.mp proper p
    simp only [← place, Batch.partitions, List.flatMap_append, List.flatMap_cons,
      List.count_append] at twice old
    refine ⟨p, List.count_pos_iff.mp (by omega), List.count_pos_iff.mp ?_, reported⟩
    simp only [Batch.partitions, List.flatMap_append, List.count_append]
    omega
  · rw [elsewhere index here] at place
    exact absurd (cover.count_le_one (List.mem_of_getElem? place) p) (Nat.not_le.mpr twice)

end Edited

/-! ## Merging -/

section Merged

variable {planned : Nat} {kept moved : Batch} {earlier later : List Batch}
  (cover : ExactCover workload ⟨planned, earlier ++ kept :: moved :: later⟩)

include cover

/-- Two neighbouring batches can be joined if they share no partition. -/
theorem exactCover_joined :
    ExactCover workload ⟨planned, earlier ++ ⟨kept.tasks ++ moved.tasks⟩ :: later⟩ ↔
      ∀ p ∈ moved.partitions, p ∉ kept.partitions := by
  have cross : (∀ s ∈ kept.tasks, ∀ t ∈ moved.tasks, s.Apart t) ↔
      ∀ p ∈ moved.partitions, p ∉ kept.partitions := by
    simp only [Task.Apart, Batch.partitions, List.mem_flatMap, not_exists, not_and]
    constructor
    · rintro h p ⟨t, ht, hp⟩ s hs used
      exact h s hs t ht p used hp
    · intro h s hs t ht p used hp
      exact h p ⟨t, ht, hp⟩ s hs used
  have work : workOf (earlier ++ ⟨kept.tasks ++ moved.tasks⟩ :: later) =
      workOf (earlier ++ kept :: moved :: later) := by
    simp
  constructor
  · intro joined
    have apart := joined.apart ⟨kept.tasks ++ moved.tasks⟩ (by simp)
    exact cross.mp (List.pairwise_append.mp apart).2.2
  · intro separate
    rw [exactCover_iff] at cover ⊢
    obtain ⟨⟨nonempty, contains, apart, nodup⟩, complete⟩ := cover
    simp only [List.forall_mem_append, List.forall_mem_cons] at nonempty apart
    refine ⟨⟨?_, fun task mem => contains task ?_, ?_, work ▸ nodup⟩, work ▸ complete⟩
    · simp only [List.forall_mem_append, List.forall_mem_cons]
      exact ⟨nonempty.1, List.append_ne_nil_of_left_ne_nil nonempty.2.1 _, nonempty.2.2.2⟩
    · simpa using mem
    · simp only [List.forall_mem_append, List.forall_mem_cons, List.pairwise_append]
      exact ⟨apart.1, ⟨apart.2.1, apart.2.2.1, cross.mpr separate⟩, apart.2.2.2⟩

/-- Otherwise the first task behind the join that shares a partition is blamed for it. -/
theorem validate_joined_of_shared {p : Partition}
    (shared : moved.normalized.partitions.find? (· ∈ kept.partitions) = some p) :
    validate workload ⟨planned, earlier ++ ⟨kept.tasks ++ moved.tasks⟩ :: later⟩ =
      .error (.overlap earlier.length p) := by
  rw [Batch.find?_partitions_normalized] at shared
  obtain ⟨before, task, after, tasks, found, none⟩ := List.findSome?_eq_some_iff.mp shared
  obtain ⟨mem, used, lowest⟩ := Task.find?_partitions_normalized.mp found
  simp only [decide_eq_true_eq] at used lowest
  obtain ⟨ahead, keptTasks⟩ := cover.clean.start
  have withoutKept := cover.clean.sublist (sublist_of_split earlier (moved :: later) kept)
  have movedTasks := withoutKept.start.2
  have split : earlier ++ ⟨kept.tasks ++ moved.tasks⟩ :: later =
      earlier ++ ⟨(kept.tasks ++ before) ++ task :: after⟩ :: later := by
    rw [tasks, List.append_assoc]
  have upTo := concat_sublist_of_split before after task
  rw [← tasks] at upTo
  obtain ⟨beforeTasks, inside, free, -⟩ := cleanTasks_concat.mp (movedTasks.sublist upTo)
  -- Up to this task no moved one shares a partition with a kept one, and moved ones never share any.
  have apart : ∀ s ∈ kept.tasks, ∀ t ∈ before, s.Apart t := by
    intro s hs t ht p used shared
    have unused := List.find?_eq_none.mp (none t ht) p (Task.mem_partitions_normalized.mpr shared)
    exact unused (decide_eq_true (List.mem_flatMap.mpr ⟨s, hs, used⟩))
  refine validate_of_firstViolation (.atTask split ahead ⟨?_, ?_, ?_⟩ (.overlap inside mem ?_ ?_))
  · exact List.forall_mem_append.mpr ⟨keptTasks.contains, beforeTasks.contains⟩
  · exact List.pairwise_append.mpr ⟨keptTasks.apart, beforeTasks.apart, apart⟩
  · exact List.forall_mem_append.mpr ⟨keptTasks.fresh, beforeTasks.fresh⟩
  · rw [List.flatMap_append]
    exact List.mem_append_left _ used
  · intro q hq clash
    rw [List.flatMap_append, List.mem_append] at clash
    exact lowest q hq (clash.resolve_right (free q hq))

end Merged

/-- Taking a batch away and appending it to another one joins the two, as if they had been neighbours. -/
theorem exists_join_of_mergeBatch (cover : ExactCover workload schedule) {index target : Nat}
    {moved kept : Batch} (found : schedule.batches[index]? = some moved)
    (onto : (schedule.batches.eraseIdx index)[target]? = some kept) :
    ∃ earlier later, earlier.length = target ∧
      ExactCover workload ⟨schedule.partitions, earlier ++ kept :: moved :: later⟩ ∧
      schedule.edit (.mergeBatch index target) =
        ⟨schedule.partitions, earlier ++ ⟨kept.tasks ++ moved.tasks⟩ :: later⟩ := by
  obtain ⟨front, back, split, rfl⟩ := exists_split_of_getElem? found
  have rest : schedule.batches.eraseIdx front.length = front ++ back := by
    rw [split, eraseIdx_at_split]
  rw [rest] at onto
  obtain ⟨earlier, later, others, rfl⟩ := exists_split_of_getElem? onto
  refine ⟨earlier, later, rfl, cover.rearranged (List.Perm.map _ ?_), ?_⟩
  · calc earlier ++ kept :: moved :: later
      _ = (earlier ++ [kept]) ++ moved :: later := by simp
      List.Perm _ (moved :: ((earlier ++ [kept]) ++ later)) := List.perm_middle
      _ = moved :: (front ++ back) := by simp [others]
      List.Perm _ (front ++ moved :: back) := List.perm_middle.symm
      _ = schedule.batches := split.symm
  · simp only [edit, mapBatches, found, rest, others, modify_at_split, Batch.mapTasks]

/-- Every single edit of an accepted schedule gets the verdict that fits it. Exchanging two batches or the
indices of a cross task changes nothing. A batch that is taken away is reported by the first task it had,
and a task by itself unless its batch is left empty, which is reported instead, as is an empty batch that
is put in. A task that is put in is foreign to the workload, or overlaps with others in that batch, or is
a duplicate. Merging two batches is harmless exactly if they share no partition, and otherwise reported by
the first partition, in the order of the appended tasks, that they share. -/
theorem edited_verdict {workload : Workload} {schedule : Schedule}
    (accepted : schedule.validate workload = .ok ()) :
    (∀ first second, (schedule.edit (.swapBatches first second)).validate workload = .ok ()) ∧
    (∀ batch index, (schedule.edit (.flipTask batch index)).validate workload = .ok ()) ∧
    (∀ index batch, schedule.batches[index]? = some batch →
      ∃ task, workload.First (· ∈ batch.tasks.map Task.normalized) task ∧
        (schedule.edit (.removeBatch index)).validate workload = .error (.missing task)) ∧
    (∀ index batch position task, schedule.batches[index]? = some batch →
      batch.tasks[position]? = some task →
      (schedule.edit (.removeTask index position)).validate workload =
        .error (if batch.size = 1 then .emptyBatch index else .missing task.normalized)) ∧
    (∀ index ≤ schedule.size,
      (schedule.edit (.insertBatch index [])).validate workload = .error (.emptyBatch index)) ∧
    (∀ index batch position task, schedule.batches[index]? = some batch → position ≤ batch.size →
      let verdict := (schedule.edit (.insertTask index position task)).validate workload
      (¬ workload.Contains task → verdict = .error (.foreign index task.normalized)) ∧
      (workload.Contains task →
        (∃ p ∈ task.partitions, p ∈ batch.partitions ∧ verdict = .error (.overlap index p)) ∨
          verdict = .error (.duplicate task.normalized))) ∧
    (∀ index target moved kept, schedule.batches[index]? = some moved →
      (schedule.batches.eraseIdx index)[target]? = some kept →
      let verdict := (schedule.edit (.mergeBatch index target)).validate workload
      (verdict = .ok () ↔ ∀ p ∈ moved.partitions, p ∉ kept.partitions) ∧
      ∀ p, moved.normalized.partitions.find? (· ∈ kept.partitions) = some p →
        verdict = .error (.overlap target p)) := by
  have cover := validate_eq_ok_iff.mp accepted
  refine ⟨fun first second => ?_, fun batch index => ?_, fun index batch found => ?_,
    fun index batch position task found stands => ?_, fun index inside => ?_,
    fun index batch position task found inside => ⟨fun outside => ?_, fun contained => ?_⟩,
    fun index target moved kept found onto => ?_⟩
  · exact validate_eq_ok_iff.mpr (exactCover_swapBatches cover first second)
  · exact validate_eq_ok_iff.mpr (exactCover_flipTask cover batch index)
  · exact validate_removeBatch cover found
  · exact validate_removeTask cover found stands
  · exact validate_insertBatch_nil cover inside
  · exact validate_insertTask_of_not_contains cover found inside outside
  · exact validate_insertTask_of_contains cover found inside contained
  · obtain ⟨earlier, later, rfl, neighbours, edited⟩ := exists_join_of_mergeBatch cover found onto
    rw [edited]
    refine ⟨?_, fun p shared => validate_joined_of_shared neighbours shared⟩
    rw [validate_eq_ok_iff]
    exact exactCover_joined neighbours

/-- Four batches over three partitions. The last two can be merged onto others: partition 1 onto the pair
of 0 and 2, but the batch before it not onto the first one. -/
theorem three_partitions_edited_verdict :
    let workload : Workload := ⟨3, by decide⟩
    let schedule : Schedule := ⟨3, [⟨[.cross 0 1, .diagonal 2]⟩, ⟨[.cross 2 0]⟩,
      ⟨[.cross 2 1, .diagonal 0]⟩, ⟨[.diagonal 1]⟩]⟩
    schedule.validate workload = .ok () ∧
    (schedule.edit (.swapBatches 0 2)).validate workload = .ok () ∧
    (schedule.edit (.removeTask 0 0)).validate workload = .error (.missing (.cross 0 1)) ∧
    (schedule.edit (.removeTask 1 0)).validate workload = .error (.emptyBatch 1) ∧
    (schedule.edit (.insertTask 2 1 (.cross 3 1))).validate workload =
      .error (.foreign 2 (.cross 1 3)) ∧
    (schedule.edit (.mergeBatch 3 1)).validate workload = .ok () ∧
    (schedule.edit (.mergeBatch 2 0)).validate workload = .error (.overlap 0 1) := by
  intro workload schedule
  have accepted : schedule.validate workload = .ok () := by decide
  obtain ⟨swap, -, -, remove, -, insert, merge⟩ := edited_verdict accepted
  refine ⟨accepted, swap 0 2, remove 0 _ 0 _ rfl rfl, remove 1 _ 0 _ rfl rfl, ?_, ?_, ?_⟩
  · exact (insert 2 _ 1 (.cross 3 1) rfl (by decide)).1 (by decide)
  · exact (merge 3 1 _ _ rfl rfl).1.mpr (by decide)
  · exact (merge 2 0 _ _ rfl rfl).2 1 (by decide)

end Schedule

end AllPairs
