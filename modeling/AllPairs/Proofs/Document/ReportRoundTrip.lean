import AllPairs.Document.Report
import AllPairs.Proofs.Json.Floats

/-!
# Benchmark reports as written and read

A report is read from its own JSON text as it was: its entries in their order, and the name of its
planner, whatever characters that has. Of the texts of the measured times it is only used that each one,
read by itself, gives the time back.
-/

namespace AllPairs.Benchmark

open Json

/-- The counts of the entry fit into words. -/
def Entry.InWords (entry : Entry) : Prop :=
  entry.partitions < wordSize ∧ entry.tasks < wordSize ∧ entry.batches < wordSize ∧
    entry.maxWidth < wordSize

instance (entry : Entry) : Decidable entry.InWords :=
  inferInstanceAs (Decidable (_ ∧ _))

theorem Entry.read_legible {entry : Entry} (words : entry.InWords)
    (back : Decimal.ReadsBack entry.time) : Legible read entry.layout entry := by
  obtain ⟨hPartitions, hTasks, hBatches, hWidth⟩ := words
  have partitions := (legible_natural hPartitions).map
    fun partitions (entry : Entry) => { entry with partitions }
  have tasks := (legible_natural hTasks).map fun tasks (entry : Entry) => { entry with tasks }
  have batches := (legible_natural hBatches).map fun batches (entry : Entry) => { entry with batches }
  have width := (legible_natural hWidth).map fun maxWidth (entry : Entry) => { entry with maxWidth }
  have time := (legible_float back).map fun time (entry : Entry) => { entry with time }
  exact legible_record (.field rfl (by simp) partitions (.field rfl (by simp) tasks
    (.field rfl (by simp) batches (.field rfl (by simp) width (.field rfl (by simp) time (.done rfl))))))

theorem Report.read_legible {report : Report} (words : ∀ entry ∈ report.entries, entry.InWords)
    (back : ∀ entry ∈ report.entries, Decimal.ReadsBack entry.time) :
    Legible read report.layout report := by
  have planner := (legible_text report.planner).map
    fun planner (report : Report) => { report with planner }
  have entries := (legible_list fun entry mem => Entry.read_legible (words entry mem)
    (back entry mem)).map fun entries (report : Report) => { report with entries }
  exact legible_record (.field rfl (by simp) planner (.field rfl (by simp) entries (.done rfl)))

/-! ## Main result -/

/-- Reading the JSON text of a report gives it back, with the same name and the same entries in the same
order, whatever characters the name has, if the time of every entry reads back from its own text. -/
theorem report_read_back (report : Report) (words : ∀ entry ∈ report.entries, entry.InWords)
    (back : ∀ entry ∈ report.entries, Decimal.ReadsBack entry.time) :
    document Report.read (octets report.layout.render) = .ok report :=
  (Report.read_legible words back).document

/-- A report is read back whose planner has a quote, a backslash, a control character, a line break and a
character beyond the basic plane in its name, with times in both notations and counts up to the largest
word. -/
theorem escaped_name_read_back :
    Entry.InWords ⟨3, 6, 3, 2, 0.5⟩ ∧ Decimal.ReadsBack 0.5 ∧
    Entry.InWords ⟨wordSize - 1, 0, 1, 1, 1.5e-7⟩ ∧ Decimal.ReadsBack 1.5e-7 ∧
    document Report.read (octets (Report.layout ⟨"\x22\\\x01\n😀", [⟨3, 6, 3, 2, 0.5⟩,
      ⟨wordSize - 1, 0, 1, 1, 1.5e-7⟩]⟩).render) =
      .ok ⟨"\x22\\\x01\n😀", [⟨3, 6, 3, 2, 0.5⟩, ⟨wordSize - 1, 0, 1, 1, 1.5e-7⟩]⟩ := by
  have plain : Decimal.ReadsBack 0.5 := by decide +kernel
  have scientific : Decimal.ReadsBack 1.5e-7 := by decide +kernel
  have first : Entry.InWords ⟨3, 6, 3, 2, 0.5⟩ := by decide
  have second : Entry.InWords ⟨wordSize - 1, 0, 1, 1, 1.5e-7⟩ := by decide
  exact ⟨first, plain, second, scientific, report_read_back _ (by simp [first, second])
    (by simp [plain, scientific])⟩

end AllPairs.Benchmark
