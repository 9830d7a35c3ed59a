import AllPairs.Proofs.Document.PlanRoundTrip
import AllPairs.Proofs.Json.Fitting
import AllPairs.Proofs.Json.Forms

/-!
# Schedules in any layout

A schedule need not be written as this program writes it. Its two members may stand in either order and
among members that mean nothing here, or they are the two items of a list; blanks may stand between any
two tokens, and characters of keys may be escaped. All of these texts are read as the same schedule.
-/

namespace AllPairs

open Json

/-! ## Forms -/

/-- The texts of a task: an object whose single key names its kind. -/
def Task.form : Task → Form
  | cross first second => .object [(.string "cross", .array [.natural first, .natural second])]
  | diagonal partition => .object [(.string "diagonal", .natural partition)]

/-- The texts of a batch: the list of its tasks. -/
def Batch.form (batch : Batch) : Form :=
  .array (batch.tasks.map Task.form)

namespace Schedule

/-- The names of the members of a schedule with the forms of their values. -/
def members (schedule : Schedule) : List (String × Form) :=
  [("partitions", .natural schedule.partitions),
    ("batches", .array (schedule.batches.map Batch.form))]

theorem partitions_mem (schedule : Schedule) :
    ("partitions", .natural schedule.partitions) ∈ schedule.members :=
  .head _

theorem batches_mem (schedule : Schedule) :
    ("batches", .array (schedule.batches.map Batch.form)) ∈ schedule.members :=
  .tail _ (.head _)

/-- The texts of a schedule in an object of its two members, in the order in which they are written. -/
def form (schedule : Schedule) : Form :=
  .object (schedule.members.map fun entry => (.string entry.1, entry.2))

/-- The texts of a schedule. In an object any number of members with keys of the form `other` and any
values may stand before, between and behind the two that are known. -/
inductive Text (other : Form) (schedule : Schedule) : Form
  | object {members : List (Form × Form)} {found : List String} {text : Octets} :
    Gathers schedule.members other [] members found →
    (∀ name ∈ schedule.members.map Prod.fst, name ∈ found) → Form.object members text →
    Text other schedule text
  | list {text : Octets} : Form.array (schedule.members.map Prod.snd) text → Text other schedule text

/-- The start of an object with members of a schedule, up to the key of one that is there already. -/
inductive Repeats (other : Form) (schedule : Schedule) (name : String) : Form
  | intro {members : List (Form × Form)} {found : List String} {inner gap key rest : Octets} :
    Gathers schedule.members other [] members found →
    Series true (members.map fun entry => Form.member entry.1 entry.2) inner → name ∈ found →
    Lead false gap → Form.string name key →
    Repeats other schedule name
      (Octet.openBrace :: (inner ++ (gap ++ Octet.quote :: (key ++ rest))))

/-- The keys of members that mean nothing for a schedule. -/
def otherKey : Form :=
  .otherKey ["partitions", "batches"]

end Schedule

/-! ## What is written -/

theorem Task.layout_fits (task : Task) : task.layout.Fits task.form := by
  cases task with
  | cross first second =>
    have pair : (Layout.list ([first, second].map Layout.natural)).Fits
        (.array ([first, second].map Form.natural)) := list_fits fun index _ => natural_fits index
    exact object_fits [("cross", _, _)] (List.forall_mem_singleton.mpr pair)
  | diagonal partition =>
    exact object_fits [("diagonal", _, _)] (List.forall_mem_singleton.mpr (natural_fits partition))

theorem Batch.layout_fits (batch : Batch) : batch.layout.Fits batch.form :=
  list_fits fun task _ => task.layout_fits

theorem Schedule.layout_fits (schedule : Schedule) : schedule.layout.Fits schedule.form := by
  have batches : (Layout.list (schedule.batches.map Batch.layout)).Fits
      (.array (schedule.batches.map Batch.form)) := list_fits fun batch _ => batch.layout_fits
  exact object_fits [("partitions", _, _), ("batches", _, _)] (List.forall_mem_cons.mpr
    ⟨natural_fits _, List.forall_mem_singleton.mpr batches⟩)

/-- What is written for a schedule is one of its texts. -/
theorem Schedule.toJson_text (schedule : Schedule) (other : Form) :
    schedule.Text other (octets schedule.toJson) := by
  have both : Gathers schedule.members other [] _ ["batches", "partitions"] :=
    .known schedule.partitions_mem (by decide) (.known schedule.batches_mem (by decide) .nil)
  exact .object both (by simp [members]) (schedule.layout_fits 0)

/-! ## Readers -/

namespace Task

theorem readPair_reads {first second : Partition} (hf : first < wordSize) (hs : second < wordSize) :
    readPair.Reads (.array [.natural first, .natural second]) (first, second) := by
  constructor
  have one := (natural_reads hf).map fun first (pair : Partition × Partition) => (first, pair.2)
  have two := (natural_reads hs).map fun second (pair : Partition × Partition) => (pair.1, second)
  have fields : FieldForms pairRecord.fields pairRecord.blank [.natural first, .natural second]
      (first, second) := .cons one (.cons two .nil)
  intro text written
  obtain ⟨inner, rfl, read⟩ := ofList_reads fields written
  refine ⟨⟨_, _, rfl, rfl, by decide⟩, ?_⟩
  intro input rest start _
  rw [readPair, start]
  exact read rest

theorem read_reads {task : Task} (words : task.InWords) : read.Reads task.form task := by
  cases task with
  | cross first second =>
    exact tagged_reads rfl ((readPair_reads words.1 words.2).map fun pair => cross pair.1 pair.2)
  | diagonal partition =>
    exact tagged_reads rfl ((natural_reads words).map diagonal)

end Task

theorem Batch.read_reads {batch : Batch} (words : batch.InWords) : read.Reads batch.form batch :=
  (list_reads fun task mem => Task.read_reads (words task mem)).map Batch.mk

namespace Schedule

variable {schedule : Schedule}

theorem partitions_reads (words : schedule.InWords) :
    (natural.map fun partitions (schedule : Schedule) => { schedule with partitions }).Reads
      (.natural schedule.partitions)
      fun other => { other with partitions := schedule.partitions } :=
  (natural_reads words.1).map _

theorem batches_reads (words : schedule.InWords) :
    ((list Batch.read).map fun batches (schedule : Schedule) => { schedule with batches }).Reads
      (.array (schedule.batches.map Batch.form))
      fun other => { other with batches := schedule.batches } :=
  (list_reads fun batch mem => Batch.read_reads (words.2 batch mem)).map _

/-- What is known of the schedule when the members with the given names have been read. -/
def known (schedule : Schedule) (seen : List String) : Schedule where
  partitions := if "partitions" ∈ seen then schedule.partitions else record.blank.partitions
  batches := if "batches" ∈ seen then schedule.batches else record.blank.batches

theorem record_admits (words : schedule.InWords) :
    record.Admits schedule.members schedule.known schedule where
  blank := rfl
  field := by
    refine List.forall_mem_cons.mpr ⟨⟨_, rfl, _, partitions_reads words, ?_⟩,
      List.forall_mem_cons.mpr ⟨⟨_, rfl, _, batches_reads words, ?_⟩, nofun⟩⟩
    · intro seen _
      simp [known]
    · intro seen _
      simp [known]
  other := by
    intro name other
    simp only [members, List.map_cons, List.map_nil, List.mem_cons, not_or] at other
    simp [record, Ne.symm other.1, Ne.symm other.2.1]
  finish := by
    intro seen all
    obtain ⟨partitions, tail⟩ := List.forall_mem_cons.mp all
    obtain ⟨batches, -⟩ := List.forall_mem_cons.mp tail
    simp [Record.finish, record, known, partitions, batches]

theorem read_reads (words : schedule.InWords) :
    read.Reads (schedule.Text otherKey) schedule where
  takes written := by
    cases written with
    | object gathers complete object =>
      have all := (record_admits words).reads_object gathers fun entry mem =>
        complete _ (List.mem_map_of_mem mem)
      exact all.takes object
    | list array =>
      have fields : FieldForms record.fields record.blank (schedule.members.map Prod.snd) schedule :=
        .cons (partitions_reads words) (.cons (batches_reads words) .nil)
      exact fields.reads.takes array

theorem read_repeated (words : schedule.InWords) {name : String} {text input : Octets}
    (written : schedule.Repeats otherKey name text) (start : afterBlanks input = text) :
    read input = .error (.mismatch (.duplicateField name)) := by
  obtain ⟨gathers, series, again, lead, string⟩ := written
  exact (record_admits words).read_repeated gathers series again lead string start

/-! ## Main result -/

/-- Every text of a schedule is read as this schedule, whatever stands among its members and wherever
there are blanks; and an object that repeats one of the two members is refused for that. -/
theorem read_from_any_layout {schedule : Schedule} (words : schedule.InWords) :
    (∀ before text after, Blank before → Blank after → schedule.Text otherKey text →
      ofJson (before ++ (text ++ after)) = .ok schedule) ∧
    (∀ name before text, Blank before → schedule.Repeats otherKey name text →
      ofJson (before ++ text) = .error (.mismatch (.duplicateField name))) := by
  constructor
  · intro before text after lead trail written
    exact ((read_reads words).takes written).document lead trail
  · intro name before text lead written
    have start : afterBlanks (before ++ text) = text := by
      rw [afterBlanks_append lead]
      cases written
      exact afterBlanks_cons rfl
    rw [ofJson, document, read_repeated words written start]
    rfl

/-- The two members in the other order behind a member with a bracket in a string, and a second number of
partitions behind the first one. -/
theorem reordered_schedule_read :
    InWords ⟨2, []⟩ ∧
    Text otherKey ⟨2, []⟩
      (octets "\x7b\x22note\x22:[\x22]\x22], \x22batches\x22:[],\x22partitions\x22:2\x7d") ∧
    ofJson (octets "\x7b\x22note\x22:[\x22]\x22], \x22batches\x22:[],\x22partitions\x22:2\x7d") =
      .ok ⟨2, []⟩ ∧
    Repeats otherKey ⟨2, []⟩ "partitions"
      (octets "\x7b\x22note\x22:[\x22]\x22],\x22partitions\x22:2,\x22partitions\x22:3\x7d") ∧
    ofJson (octets "\x7b\x22note\x22:[\x22]\x22],\x22partitions\x22:2,\x22partitions\x22:3\x7d") =
      .error (.mismatch (.duplicateField "partitions")) := by
  have words : InWords ⟨2, []⟩ := by decide
  have bracket : AnyString (String.utf8EncodeChar ']' ++ [Octet.quote]) :=
    .plain (by decide) .close
  have brackets : Form.value _ := .list (.item (.first blank_nil) (.scalar (.string bracket))
    (.endItems blank_nil))
  have key : otherKey _ := ⟨"note", by decide, string_spelling "note"⟩
  have note : Form.member otherKey .value _ := .intro key blank_nil blank_nil brackets
  have batches : Form.member (.string "batches") (.array []) _ :=
    .intro (string_spelling _) blank_nil blank_nil (.intro .nil blank_nil)
  have partitions : Form.member (.string "partitions") (.natural 2) _ :=
    .intro (string_spelling _) blank_nil blank_nil rfl
  have written : Text otherKey ⟨2, []⟩
      (octets "\x7b\x22note\x22:[\x22]\x22], \x22batches\x22:[],\x22partitions\x22:2\x7d") := by
    have object : Form.object [(otherKey, .value), (.string "batches", .array []),
        (.string "partitions", .natural 2)] _ :=
      .intro (.cons (.first blank_nil) note (.cons (.later blank_nil blank_space) batches
        (.cons (.later blank_nil blank_nil) partitions .nil))) blank_nil
    have both : Gathers (members ⟨2, []⟩) otherKey [] _ ["partitions", "batches"] :=
      .other (.known (batches_mem _) (by decide) (.known (partitions_mem _) (by decide) .nil))
    refine Eq.mp (congrArg (Text otherKey ⟨2, []⟩) ?_) (.object both (by simp [members]) object)
    decide +kernel
  have repeated : Repeats otherKey ⟨2, []⟩ "partitions"
      (octets "\x7b\x22note\x22:[\x22]\x22],\x22partitions\x22:2,\x22partitions\x22:3\x7d") := by
    refine Eq.mp (congrArg (Repeats otherKey ⟨2, []⟩ "partitions") ?_)
      (@Repeats.intro _ _ _ _ _ _ _ _ (octets ":3\x7d")
        (.other (.known (partitions_mem ⟨2, []⟩) (by decide) .nil))
        (.cons (.first blank_nil) note (.cons (.later blank_nil blank_nil) partitions .nil))
        (by decide) (.later blank_nil blank_nil) (string_spelling "partitions"))
    decide +kernel
  have read := read_from_any_layout words
  have whole := read.1 [] _ [] blank_nil blank_nil written
  rw [List.nil_append, List.append_nil] at whole
  exact ⟨words, written, whole, repeated, read.2 _ [] _ blank_nil repeated⟩

/-! ## Keys that are no text -/

/-- Any string that spells none of the two keys, be it a text or not. -/
def anyOtherKey : Form := fun key =>
  AnyString key ∧ ∀ name ∈ ["partitions", "batches"], ¬ Form.string name key

/-- Half of a character may stand alone in a value that is passed over, but not in a key: every key is
decoded before it is known that it means nothing. -/
theorem half_character_key_refused :
    Text anyOtherKey ⟨1, []⟩
      (octets "\x7b\x22\\ud800\x22:0,\x22partitions\x22:1,\x22batches\x22:[]\x7d") ∧
    ofJson (octets "\x7b\x22\\ud800\x22:0,\x22partitions\x22:1,\x22batches\x22:[]\x7d") =
      .error (.malformed .halfCharacter) := by
  have digits : UnitText 0xd800 (octets "d800") :=
    @UnitText.intro 13 8 0 0 _ _ _ _ (by decide) (by decide) (by decide) (by decide)
  have refused (rest : Octets) : readText (octets "\\ud800\x22" ++ rest) =
      .error (.malformed .halfCharacter) := readText_half (by decide) digits
  have other : anyOtherKey (octets "\\ud800\x22") := by
    refine ⟨.unit digits .close, fun name _ string => ?_⟩
    cases (refused []).symm.trans (spells_string string [])
  have zero : Form.value (octets "0") :=
    .scalar (.number (.intro (.inl rfl) (wholeNumeral_toString 0) .absent .absent))
  have note : Form.member anyOtherKey .value _ := .intro other blank_nil blank_nil zero
  have batches : Form.member (.string "batches") (.array []) _ :=
    .intro (string_spelling _) blank_nil blank_nil (.intro .nil blank_nil)
  have partitions : Form.member (.string "partitions") (.natural 1) _ :=
    .intro (string_spelling _) blank_nil blank_nil rfl
  have object : Form.object [(anyOtherKey, .value), (.string "partitions", .natural 1),
      (.string "batches", .array [])] _ :=
    .intro (.cons (.first blank_nil) note (.cons (.later blank_nil blank_nil) partitions
      (.cons (.later blank_nil blank_nil) batches .nil))) blank_nil
  constructor
  · have both : Gathers (members ⟨1, []⟩) anyOtherKey [] _ ["batches", "partitions"] :=
      .other (.known (partitions_mem _) (by decide) (.known (batches_mem _) (by decide) .nil))
    refine Eq.mp (congrArg (Text anyOtherKey ⟨1, []⟩) ?_) (.object both (by simp [members]) object)
    decide +kernel
  · have start : afterBlanks
        (octets "\x7b\x22\\ud800\x22:0,\x22partitions\x22:1,\x22batches\x22:[]\x7d") =
        Octet.openBrace :: ([] ++ Octet.quote :: (octets "\\ud800\x22" ++
          octets ":0,\x22partitions\x22:1,\x22batches\x22:[]\x7d")) := by decide +kernel
    rw [ofJson, document, read, record.read_key_error blank_nil start (refused _)]
    rfl

end Schedule
end AllPairs
