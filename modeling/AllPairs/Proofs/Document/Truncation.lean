import AllPairs.Proofs.Document.PlanForms
import AllPairs.Proofs.Json.Cut

/-!
# Schedules that are cut off

A file that ends too early is never taken for a schedule, and what is said of it is that it has ended:
neither a shortened number nor a shortened list passes for a whole one, and a key or the name of a kind
that is cut off is not taken for another one.
-/

namespace AllPairs

open Json

/-! ## Readers -/

namespace Task

theorem readPair_needsAll {first second : Partition} (hf : first < wordSize) (hs : second < wordSize) :
    readPair.NeedsAll (.array [.natural first, .natural second]) where
  takes written := ⟨(first, second), (readPair_reads hf hs).takes written⟩
  runsOut := by
    rintro _ part input ⟨series, blank⟩ cut start
    refine .inl ?_
    rcases cut.cons with rfl | ⟨tail, rfl, inside⟩
    · exact ⟨.value, by simp [readPair, start]⟩
    · have one := (natural_needsAll hf).map fun first (pair : Partition × Partition) =>
        (first, pair.2)
      have two := (natural_needsAll hs).map fun second (pair : Partition × Partition) =>
        (pair.1, second)
      have needs : ∀ entry ∈ pairRecord.fields.zip [.natural first, .natural second],
          entry.1.read.NeedsAll entry.2 :=
        List.forall_mem_cons.mpr ⟨one, List.forall_mem_singleton.mpr two⟩
      have series : Series ((0 : Nat) == 0) [.natural first, .natural second] _ := series
      have ended : Ended (pairRecord.inOrder pairRecord.fields 0 pairRecord.blank tail) :=
        pairRecord.inOrder_cut needs series blank inside pairRecord.blank
      rwa [readPair, start]

theorem read_needsAll {task : Task} (words : task.InWords) : read.NeedsAll task.form := by
  cases task with
  | cross first second =>
    have needs := (readPair_needsAll words.1 words.2).map fun pair => cross pair.1 pair.2
    exact tagged_needsAll rfl
      ((readPair_reads words.1 words.2).map fun pair => cross pair.1 pair.2) needs
  | diagonal partition =>
    have needs := (natural_needsAll words).map diagonal
    exact tagged_needsAll rfl ((natural_reads words).map diagonal) needs

end Task

theorem Batch.read_needsAll {batch : Batch} (words : batch.InWords) : read.NeedsAll batch.form :=
  (list_needsAll (fun task mem => Task.read_reads (words task mem)) fun task mem =>
    Task.read_needsAll (words task mem)).map Batch.mk

namespace Schedule

variable {schedule : Schedule}

/-- A schedule without other members that is cut off anywhere, whatever its layout is. -/
theorem read_cut (words : schedule.InWords) {text part : Octets}
    (written : schedule.form text)
    (cut : Cut part text) : Ended (read part) := by
  have partitions := (natural_needsAll words.1).map
    fun partitions (schedule : Schedule) => { schedule with partitions }
  have batches := (list_needsAll (fun batch mem => Batch.read_reads (words.2 batch mem))
    fun batch mem => Batch.read_needsAll (words.2 batch mem)).map
      fun batches (schedule : Schedule) => { schedule with batches }
  have known : ∀ entry ∈ schedule.members, ∃ field,
      record.fields.find? (·.key == entry.1) = some field ∧ field.read.NeedsAll entry.2 :=
    List.forall_mem_cons.mpr ⟨⟨_, rfl, partitions⟩, List.forall_mem_singleton.mpr ⟨_, rfl, batches⟩⟩
  have shown : afterBlanks part = part := by
    cases part with
    | nil => rfl
    | cons c tail =>
      obtain ⟨series, blank⟩ := written
      obtain ⟨_, shape, -⟩ := cut.cons.resolve_left nofun
      rw [shape]
      exact afterBlanks_cons rfl
  have distinct : ["partitions", "batches"].Nodup := by decide
  exact Record.read_cut known distinct written cut shown

/-! ## Main result -/

/-- Less than the whole JSON text of a schedule is not read as a schedule: the input ends too early. -/
theorem truncated_json_ended (words : schedule.InWords) {part : Octets}
    (start : part <+: octets schedule.toJson) (proper : part ≠ octets schedule.toJson) :
    ∃ unfinished, ofJson part = .error (.ended unfinished) := by
  obtain ⟨unfinished, ended⟩ := read_cut words (schedule.layout_fits 0) ⟨start, proper⟩
  exact ⟨unfinished, by rw [ofJson, document, ended]; rfl⟩

/-- The text of a schedule on twelve partitions that ends behind the first digit of their number. -/
theorem shortened_number_ended :
    InWords ⟨12, [⟨[.cross 0 11]⟩]⟩ ∧
    octets "\x7b\n  \x22partitions\x22: 1" <+: octets (toJson ⟨12, [⟨[.cross 0 11]⟩]⟩) ∧
    octets "\x7b\n  \x22partitions\x22: 1" ≠ octets (toJson ⟨12, [⟨[.cross 0 11]⟩]⟩) ∧
    ∃ unfinished, ofJson (octets "\x7b\n  \x22partitions\x22: 1") = .error (.ended unfinished) := by
  have words : InWords ⟨12, [⟨[.cross 0 11]⟩]⟩ := by decide
  have start : octets "\x7b\n  \x22partitions\x22: 1" <+:
      octets (toJson ⟨12, [⟨[.cross 0 11]⟩]⟩) := by decide +kernel
  have proper : octets "\x7b\n  \x22partitions\x22: 1" ≠
      octets (toJson ⟨12, [⟨[.cross 0 11]⟩]⟩) := by decide +kernel
  exact ⟨words, start, proper, truncated_json_ended words start proper⟩

end Schedule
end AllPairs
