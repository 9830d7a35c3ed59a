import AllPairs.Benchmark
import AllPairs.Json.Layout
import AllPairs.Json.Reader

/-!
Benchmark reports as JSON.
-/

namespace AllPairs.Benchmark

open Json

namespace Entry

/-- The fields of an entry. -/
def record : Record Entry where
  name := "struct ReportEntry"
  blank := ⟨0, 0, 0, 0, 0⟩
  complete := true
  fields :=
    [⟨"partitions", natural.map fun partitions entry => { entry with partitions }⟩,
      ⟨"tasks", natural.map fun tasks entry => { entry with tasks }⟩,
      ⟨"batches", natural.map fun batches entry => { entry with batches }⟩,
      ⟨"max_width", natural.map fun maxWidth entry => { entry with maxWidth }⟩,
      ⟨"time", float.map fun time entry => { entry with time }⟩]

/-- Reads an entry. -/
def read : Reader Entry :=
  record.read

/-- Lays out an entry. -/
def layout (entry : Entry) : Layout :=
  .object
    [("partitions", .natural entry.partitions),
      ("tasks", .natural entry.tasks),
      ("batches", .natural entry.batches),
      ("max_width", .natural entry.maxWidth),
      ("time", .float entry.time)]

end Entry

namespace Report

/-- The fields of a report. -/
def record : Record Report where
  name := "struct Report"
  blank := ⟨"", []⟩
  complete := true
  fields :=
    [⟨"planner", Json.text.map fun planner report => { report with planner }⟩,
      ⟨"entries", (list Entry.read).map fun entries report => { report with entries }⟩]

/-- Reads a report. -/
def read : Reader Report :=
  record.read

/-- Lays out a report. -/
def layout (report : Report) : Layout :=
  .object
    [("planner", .text report.planner),
      ("entries", .list (report.entries.map Entry.layout))]

end Report
end AllPairs.Benchmark
