import AllPairs.Document.Plan
import AllPairs.Proofs.Json.Pretty

/-!
# Plan data as written and read

Whatever its tasks are and however they are grouped, a schedule is read from its own JSON text as it
was, as long as its numbers fit into words; and so are its parts and the configuration of a planner.
-/

namespace AllPairs

open Json

namespace Task

/-- The indices fit into words. -/
def InWords : Task → Prop
  | cross first second => first < wordSize ∧ second < wordSize
  | diagonal partition => partition < wordSize

instance (task : Task) : Decidable task.InWords :=
  match task with
  | cross _ _ => inferInstanceAs (Decidable (_ ∧ _))
  | diagonal _ => inferInstanceAs (Decidable (_ < _))

theorem readPair_legible {first second : Partition} (hf : first < wordSize)
    (hs : second < wordSize) :
    Legible readPair (.list [.natural first, .natural second]) (first, second) := by
  intro depth
  obtain ⟨gap, last, blank, trail, shape⟩ :=
    octets_enclosed "[" "]" [.natural first, .natural second] depth
  have one := (legible_natural hf (depth + 1)).map fun first (pair : Partition × Partition) =>
    (first, pair.2)
  have two := (legible_natural hs (depth + 1)).map fun second (pair : Partition × Partition) =>
    (pair.1, second)
  have texts : FieldsText pairRecord.fields 0 pairRecord.blank
      (spread gap true
        ([.natural first, .natural second].map fun part : Layout => octets (part (depth + 1)))
        (last ++ [Octet.closeBracket])) (first, second) :=
    .field (lead_gap blank) one (.field (lead_gap blank) two (.close trail))
  rw [Layout.list, shape]
  refine ⟨⟨_, _, rfl, rfl, by decide⟩, ?_⟩
  intro input rest start _
  rw [readPair, start]
  exact texts.reads pairRecord

theorem read_legible {task : Task} (words : task.InWords) : Legible read task.layout task := by
  cases task with
  | cross first second =>
    exact legible_tagged rfl ((readPair_legible words.1 words.2).map fun pair => cross pair.1 pair.2)
  | diagonal partition =>
    exact legible_tagged rfl ((legible_natural words).map diagonal)

end Task

namespace Batch

/-- The indices of all tasks fit into words. -/
def InWords (batch : Batch) : Prop :=
  ∀ task ∈ batch.tasks, task.InWords

instance (batch : Batch) : Decidable batch.InWords :=
  inferInstanceAs (Decidable (∀ task ∈ batch.tasks, task.InWords))

theorem read_legible {batch : Batch} (words : batch.InWords) : Legible read batch.layout batch :=
  (legible_list fun task mem => Task.read_legible (words task mem)).map Batch.mk

end Batch

namespace Schedule

/-- All numbers fit into words. -/
def InWords (schedule : Schedule) : Prop :=
  schedule.partitions < wordSize ∧ ∀ batch ∈ schedule.batches, batch.InWords

instance (schedule : Schedule) : Decidable schedule.InWords :=
  inferInstanceAs (Decidable (_ ∧ _))

theorem read_legible {schedule : Schedule} (words : schedule.InWords) :
    Legible read schedule.layout schedule := by
  have partitions := (legible_natural words.1).map
    fun partitions (schedule : Schedule) => { schedule with partitions }
  have batches := (legible_list fun batch mem => Batch.read_legible (words.2 batch mem)).map
    fun batches (schedule : Schedule) => { schedule with batches }
  exact legible_record (.field rfl (by simp) partitions (.field rfl (by simp) batches (.done rfl)))

end Schedule

namespace PlanConfig

/-- The limit, if there is one, fits into a word. -/
def InWords (config : PlanConfig) : Prop :=
  ∀ limit ∈ config.maxWidth.limit?, limit < wordSize

instance (config : PlanConfig) : Decidable config.InWords :=
  inferInstanceAs (Decidable (∀ limit ∈ config.maxWidth.limit?, limit < wordSize))

theorem read_legible {config : PlanConfig} (words : config.InWords) :
    Legible read config.layout config := by
  obtain ⟨width⟩ := config
  cases width with
  | unbounded =>
    have absent := (legible_null positive).map fun limit (config : PlanConfig) =>
      { config with maxWidth := .ofNat (limit.getD 0) }
    exact legible_record (.field rfl (by simp) absent (.done rfl))
  | atMost limit pos =>
    have present := (legible_optional_positive (words limit rfl) pos).map
      fun limit (config : PlanConfig) => { config with maxWidth := .ofNat (limit.getD 0) }
    have filled : Fills record [] record.blank [("max_width", .natural limit)] ⟨.ofNat limit⟩ :=
      .field rfl (by simp) present (.done rfl)
    have same : Width.ofNat limit = .atMost limit pos := dif_pos pos
    rw [same] at filled
    exact legible_record filled

end PlanConfig

/-! ## Main result -/

/-- Reading the JSON text of a task, of a batch, of a schedule or of a configuration gives it back,
whatever its batches and tasks are: they need not be part of any workload. -/
theorem plan_data_read_back :
    (∀ task : Task, task.InWords → document Task.read (octets task.layout.render) = .ok task) ∧
    (∀ batch : Batch, batch.InWords → document Batch.read (octets batch.layout.render) = .ok batch) ∧
    (∀ schedule : Schedule, schedule.InWords →
      Schedule.ofJson (octets schedule.toJson) = .ok schedule) ∧
    (∀ config : PlanConfig, config.InWords →
      document PlanConfig.read (octets config.layout.render) = .ok config) :=
  ⟨fun _ words => (Task.read_legible words).document,
    fun _ words => (Batch.read_legible words).document,
    fun _ words => (Schedule.read_legible words).document,
    fun _ words => (PlanConfig.read_legible words).document⟩

/-- A schedule of the largest number of partitions with an empty batch, a pair in descending order and
a pair of equal indices is read back; so are such parts and a limited width. -/
theorem odd_schedule_read_back :
    Schedule.InWords ⟨wordSize - 1, [⟨[]⟩, ⟨[.cross 7 3, .cross 5 5]⟩]⟩ ∧
    Schedule.ofJson (octets (Schedule.toJson ⟨wordSize - 1, [⟨[]⟩, ⟨[.cross 7 3, .cross 5 5]⟩]⟩)) =
      .ok ⟨wordSize - 1, [⟨[]⟩, ⟨[.cross 7 3, .cross 5 5]⟩]⟩ ∧
    document Task.read (octets (Task.diagonal 0).layout.render) = .ok (.diagonal 0) ∧
    document Batch.read (octets (Batch.mk []).layout.render) = .ok ⟨[]⟩ ∧
    document PlanConfig.read (octets (PlanConfig.mk (.atMost 2 (by decide))).layout.render) =
      .ok ⟨.atMost 2 (by decide)⟩ := by
  obtain ⟨task, batch, schedule, config⟩ := plan_data_read_back
  have words : Schedule.InWords ⟨wordSize - 1, [⟨[]⟩, ⟨[.cross 7 3, .cross 5 5]⟩]⟩ := by decide
  exact ⟨words, schedule _ words, task _ (by decide), batch _ (by decide), config _ (by decide)⟩

end AllPairs
