import AllPairs.Schedule.Basic

/-!
# What the text of a schedule tells

The text of a schedule writes no lengths: tasks are parted by blanks, which also stand inside a cross
task, and a batch without tasks leaves a blank at the end of its line. Still every part of it shows
where it ends. A number is followed by a character that is no digit, a task by its bracket, a batch
by the end of its line. So the text can be taken apart in one way only, and it determines the batches.
-/

namespace AllPairs

/-- Where a written value ends shows in any text that it opens: texts that agree open with the same
value and go on in the same way. -/
def SelfDelimiting {α : Type} (write : α → List Char) : Prop :=
  ∀ ⦃a b : α⦄ ⦃rest other : List Char⦄, write a ++ rest = write b ++ other → a = b ∧ rest = other

/-- Every value is written with another character than the stop in front. -/
def OpensWithout {α : Type} (stop : Char) (write : α → List Char) : Prop :=
  ∀ a, ∃ c ≠ stop, ∃ tail, write a = c :: tail

/-! ## Texts up to a stop -/

/-- The first stop of a text parts it in one way. -/
theorem eq_of_append_stop {stop : Char} {before earlier rest other : List Char}
    (hbefore : stop ∉ before) (hearlier : stop ∉ earlier)
    (same : before ++ stop :: rest = earlier ++ stop :: other) : before = earlier ∧ rest = other := by
  induction before generalizing earlier with
  | nil =>
    cases earlier with
    | nil => exact ⟨rfl, (List.cons.inj same).2⟩
    | cons c earlier =>
      obtain ⟨rfl, -⟩ := List.cons.inj same
      exact absurd List.mem_cons_self hearlier
  | cons c before ih =>
    cases earlier with
    | nil =>
      obtain ⟨rfl, -⟩ := List.cons.inj same
      exact absurd List.mem_cons_self hbefore
    | cons d earlier =>
      obtain ⟨rfl, later⟩ := List.cons.inj same
      obtain ⟨rfl, rfl⟩ := ih (List.not_mem_of_not_mem_cons hbefore)
        (List.not_mem_of_not_mem_cons hearlier) later
      exact ⟨rfl, rfl⟩

theorem toList_toString (n : Nat) : (toString n).toList = Nat.toDigits 10 n := by
  rw [Nat.toString_eq_ofList_toDigits, String.toList_ofList]

/-- A number ends at the first character that is no digit. -/
theorem selfDelimiting_number {stop : Char} (noDigit : stop.isDigit = false) :
    SelfDelimiting fun n : Nat => (toString n).toList ++ [stop] := by
  have absent : ∀ n : Nat, stop ∉ Nat.toDigits 10 n := by
    intro n mem
    have digit := Nat.isDigit_of_mem_toDigits (by decide) (by decide) mem
    rw [noDigit] at digit
    cases digit
  intro m n rest other same
  simp only [toList_toString, List.append_assoc, List.singleton_append] at same
  obtain ⟨digits, rfl⟩ := eq_of_append_stop (absent m) (absent n) same
  refine ⟨?_, rfl⟩
  calc m = Nat.ofDigitChars 10 (Nat.toDigits 10 m) 0 := Nat.ofDigitChars_ten_toDigits.symm
    _ = Nat.ofDigitChars 10 (Nat.toDigits 10 n) 0 := by rw [digits]
    _ = n := Nat.ofDigitChars_ten_toDigits

/-! ## Lists up to a stop -/

section Lists

variable {α : Type} {write : α → List Char} {stop : Char}

/-- A text that starts with the stop opens with no value. -/
theorem OpensWithout.stop_ne (opens : OpensWithout stop write) (a : α) (rest other : List Char) :
    stop :: rest ≠ write a ++ other := by
  obtain ⟨c, different, tail, shape⟩ := opens a
  rw [shape]
  intro same
  exact different (List.cons.inj same).1.symm

theorem intercalate_map_cons (separator : Char) (a : α) (as : List α) :
    [separator].intercalate ((a :: as).map write) =
      write a ++ as.flatMap fun b => separator :: write b := by
  induction as generalizing a with
  | nil => simp
  | cons b as ih =>
    have later := ih b
    simp only [List.map_cons] at later ⊢
    rw [List.intercalate_cons_cons, later]
    simp

namespace SelfDelimiting

theorem cons (items : SelfDelimiting write) (c : Char) : SelfDelimiting fun a => c :: write a := by
  intro a b rest other same
  exact items (List.cons.inj same).2

/-- Values one behind the other end at the stop that none of them starts with. -/
theorem flatMap (items : SelfDelimiting write) (opens : OpensWithout stop write) :
    SelfDelimiting fun as : List α => as.flatMap write ++ [stop] := by
  intro as
  induction as with
  | nil =>
    intro bs rest other same
    cases bs with
    | nil => exact ⟨rfl, (List.cons.inj same).2⟩
    | cons b bs =>
      simp only [List.flatMap_cons, List.append_assoc] at same
      exact absurd same (opens.stop_ne b rest _)
  | cons a as ih =>
    intro bs rest other same
    cases bs with
    | nil =>
      simp only [List.flatMap_cons, List.append_assoc] at same
      exact absurd same.symm (opens.stop_ne a other _)
    | cons b bs =>
      simp only [List.flatMap_cons, List.append_assoc] at same
      obtain ⟨rfl, later⟩ := items same
      simp only [← List.append_assoc] at later
      obtain ⟨rfl, rfl⟩ := ih later
      exact ⟨rfl, rfl⟩

/-- Values between separators end at a stop that is no separator and that none of them starts with. -/
theorem intercalate (items : SelfDelimiting write) (opens : OpensWithout stop write)
    {separator : Char} (different : separator ≠ stop) :
    SelfDelimiting fun as : List α => [separator].intercalate (as.map write) ++ [stop] := by
  -- Behind the first value every other one has its separator in front.
  have others : SelfDelimiting fun as : List α =>
      as.flatMap (fun a => separator :: write a) ++ [stop] :=
    (items.cons separator).flatMap fun a => ⟨separator, different, write a, rfl⟩
  intro as bs rest other same
  cases as with
  | nil =>
    cases bs with
    | nil => exact ⟨rfl, (List.cons.inj same).2⟩
    | cons b bs =>
      simp only [intercalate_map_cons, List.append_assoc] at same
      exact absurd same (opens.stop_ne b rest _)
  | cons a as =>
    cases bs with
    | nil =>
      simp only [intercalate_map_cons, List.append_assoc] at same
      exact absurd same.symm (opens.stop_ne a other _)
    | cons b bs =>
      simp only [intercalate_map_cons, List.append_assoc] at same
      obtain ⟨rfl, later⟩ := items same
      simp only [← List.append_assoc] at later
      obtain ⟨rfl, rfl⟩ := others later
      exact ⟨rfl, rfl⟩

end SelfDelimiting

end Lists

/-! ## Tasks, batches and schedules -/

namespace Task

theorem toList_text_cross (first second : Partition) (rest : List Char) :
    (cross first second).text.toList ++ rest = "cross(".toList ++ (((toString first).toList ++ [',']) ++
      (' ' :: (((toString second).toList ++ [')']) ++ rest))) := by
  simp [text]

theorem toList_text_diagonal (partition : Partition) (rest : List Char) :
    (diagonal partition).text.toList ++ rest =
      "diagonal(".toList ++ (((toString partition).toList ++ [')']) ++ rest) := by
  simp [text]

/-- The text of a task starts with a letter. -/
theorem opensWithout_text : OpensWithout '\n' fun task : Task => task.text.toList := by
  intro task
  cases task with
  | cross first second => exact ⟨'c', by decide, _, by simp [text]; rfl⟩
  | diagonal partition => exact ⟨'d', by decide, _, by simp [text]; rfl⟩

/-- A task ends with its bracket, and the indices of a cross task are told apart by the comma. -/
theorem selfDelimiting_text : SelfDelimiting fun task : Task => task.text.toList := by
  have comma : SelfDelimiting fun n : Nat => (toString n).toList ++ [','] :=
    selfDelimiting_number (by decide)
  have bracket : SelfDelimiting fun n : Nat => (toString n).toList ++ [')'] :=
    selfDelimiting_number (by decide)
  intro s t rest other same
  cases s with
  | cross a b =>
    cases t with
    | cross c d =>
      rw [toList_text_cross, toList_text_cross] at same
      obtain ⟨rfl, later⟩ := comma (List.append_cancel_left same)
      obtain ⟨rfl, rfl⟩ := bracket (List.cons.inj later).2
      exact ⟨rfl, rfl⟩
    | diagonal q =>
      rw [toList_text_cross, toList_text_diagonal] at same
      exact absurd (List.cons.inj same).1 (by decide)
  | diagonal p =>
    cases t with
    | cross c d =>
      rw [toList_text_cross, toList_text_diagonal] at same
      exact absurd (List.cons.inj same).1 (by decide)
    | diagonal q =>
      rw [toList_text_diagonal, toList_text_diagonal] at same
      obtain ⟨rfl, rfl⟩ := bracket (List.append_cancel_left same)
      exact ⟨rfl, rfl⟩

end Task

/-- A batch ends with its line. -/
theorem Batch.selfDelimiting_text :
    SelfDelimiting fun batch : Batch => batch.text.toList ++ ['\n'] := by
  have tasks := Task.selfDelimiting_text.intercalate Task.opensWithout_text
    (show ' ' ≠ '\n' by decide)
  intro a b rest other same
  simp only [text, String.toList_intercalate, List.map_map] at same
  obtain ⟨equal, rfl⟩ := tasks same
  exact ⟨congrArg Batch.mk equal, rfl⟩

namespace Schedule

theorem toList_join_lines_cons (index : Nat) (batch : Batch) (batches : List Batch) :
    (String.join (lines index (batch :: batches))).toList =
      ("batch " ++ toString index ++ ": ").toList ++ ((batch.text.toList ++ ['\n']) ++
        (String.join (lines (index + 1) batches)).toList) := by
  simp [lines]

/-- Only a schedule without batches has no text. -/
theorem join_lines_cons_ne_nil (index : Nat) (batch : Batch) (batches : List Batch) :
    String.join (lines index (batch :: batches)) ≠ String.join (lines index []) := by
  intro same
  have empty := congrArg String.toList same
  rw [toList_join_lines_cons] at empty
  simp [lines] at empty

/-- Lines that are numbered from the same index on are those of one list of batches. -/
theorem eq_of_join_lines {index : Nat} {batches others : List Batch}
    (same : String.join (lines index batches) = String.join (lines index others)) :
    batches = others := by
  induction batches generalizing index others with
  | nil =>
    cases others with
    | nil => rfl
    | cons other others => exact absurd same.symm (join_lines_cons_ne_nil index other others)
  | cons batch batches ih =>
    cases others with
    | nil => exact absurd same (join_lines_cons_ne_nil index batch batches)
    | cons other others =>
      have line := congrArg String.toList same
      rw [toList_join_lines_cons, toList_join_lines_cons] at line
      obtain ⟨rfl, later⟩ := Batch.selfDelimiting_text (List.append_cancel_left line)
      rw [ih (String.toList_inj.mp later)]

/-! ## Main result -/

/-- The text of a schedule determines its batches, task by task and with the indices of each cross task
in the order in which they are written. It tells nothing else. -/
theorem text_determines_batches (a b : Schedule) : a.text = b.text ↔ a.batches = b.batches := by
  constructor
  · exact eq_of_join_lines
  · intro equal
    rw [text, text, equal]

example : (Schedule.mk 3 [⟨[.cross 1 0, .diagonal 2]⟩, ⟨[]⟩]).text =
    "batch 0: cross(1, 0) diagonal(2)\nbatch 1: \n" := by decide

end Schedule
end AllPairs
