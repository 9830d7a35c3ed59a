import AllPairs.Proofs.Json.Skipping

/-!
# Reading what is written in a form

A reader reads a form if it takes every text of the form for the same value. For records the members may
stand in any order and among others, which are passed over; a member that is repeated is refused when its
key has been read.
-/

namespace AllPairs.Json

variable {α β : Type} {first : Bool} {gap key text inner rest : Octets}

/-- The reader takes every text of the form for the value. -/
structure Reader.Reads (reader : Reader α) (form : Form) (value : α) : Prop where
  takes {text : Octets} : form text → reader.Takes text value

theorem Reader.Reads.map {reader : Reader α} {form : Form} {value : α}
    (reads : reader.Reads form value) (f : α → β) : (reader.map f).Reads form (f value) where
  takes written := (reads.takes written).map f

theorem natural_reads {n : Nat} (small : n < wordSize) : natural.Reads (.natural n) n where
  takes := by
    rintro text rfl
    exact naturalWith_takes small rfl

/-! ## Lists -/

theorem itemsText_series {item : Reader α} {form : α → Form} {values : List α}
    (reads : ∀ value ∈ values, item.Reads (form value) value)
    (series : Series first (values.map form) inner) (blank : Blank gap) :
    ItemsText item first (inner ++ (gap ++ [Octet.closeBracket])) values := by
  induction values generalizing first inner with
  | nil =>
    cases series
    exact .close blank
  | cons value values ih =>
    obtain ⟨head, tail⟩ := List.forall_mem_cons.mp reads
    cases series with
    | cons lead written more =>
      simp only [List.append_assoc]
      exact .item lead (head.takes written) (ih tail more)

theorem list_reads {item : Reader α} {form : α → Form} {values : List α}
    (reads : ∀ value ∈ values, item.Reads (form value) value) :
    (list item).Reads (.array (values.map form)) values where
  takes := by
    rintro text ⟨series, blank⟩
    exact list_takes (itemsText_series reads series blank)

/-- The fields of a record by position, each read as what its form stands for. -/
inductive FieldForms : List (Field α) → α → List Form → α → Prop
  | nil {value : α} : FieldForms [] value [] value
  | cons {field : Field α} {fields : List (Field α)} {form : Form} {forms : List Form}
    {change : α → α} {value result : α} : field.read.Reads form change →
    FieldForms fields (change value) forms result →
    FieldForms (field :: fields) value (form :: forms) result

theorem FieldForms.fieldsText {fields : List (Field α)} {value result : α} {forms : List Form}
    (reads : FieldForms fields value forms result) {index : Nat}
    (series : Series (index == 0) forms inner) (blank : Blank gap) :
    FieldsText fields index value (inner ++ (gap ++ [Octet.closeBracket])) result := by
  induction reads generalizing index inner with
  | nil =>
    cases series
    exact .close blank
  | cons head _ ih =>
    cases series with
    | cons lead written more =>
      simp only [List.append_assoc]
      exact .field lead (head.takes written) (ih more)

theorem ofList_reads {record : Record α} {result : α} {forms : List Form}
    (reads : FieldForms record.fields record.blank forms result) (written : Form.array forms text) :
    ∃ inner, text = Octet.openBracket :: inner ∧
      ∀ rest, record.ofList (inner ++ rest) = .ok (result, rest) := by
  obtain ⟨series, blank⟩ := written
  have texts : FieldsText record.fields 0 record.blank _ result := reads.fieldsText series blank
  exact ⟨_, rfl, fun _ => texts.reads record⟩

/-- A record that is written as the list of its fields is read. -/
theorem FieldForms.reads {record : Record α} {result : α} {forms : List Form}
    (reads : FieldForms record.fields record.blank forms result) :
    record.read.Reads (.array forms) result where
  takes written := by
    obtain ⟨inner, rfl, read⟩ := ofList_reads reads written
    refine ⟨⟨_, _, rfl, rfl, by decide⟩, ?_⟩
    intro input rest start _
    rw [Record.read, start]
    exact read rest

/-! ## Alternatives -/

theorem memberText_of_form {name : String} {form : Form} {reader : Reader α} {value : α}
    (reads : reader.Reads form value) (written : Form.member (.string name) form text) :
    MemberText name reader text value := by
  obtain ⟨string, before, after, content⟩ := written
  exact .intro (spells_string string) before after (reads.takes content)

theorem tagged_reads {variants : List (Variant α)} {name : String} {variant : Variant α} {form : Form}
    {value : α} (known : variants.find? (·.name == name) = some variant)
    (reads : variant.read.Reads form value) :
    (tagged variants).Reads (.object [(.string name, form)]) value where
  takes := by
    rintro text ⟨series, blank⟩
    cases series with
    | cons lead written more =>
      cases lead with
      | first before =>
        cases more
        simp only [List.append_assoc, List.nil_append]
        exact tagged_takes before known (memberText_of_form reads written) blank

/-! ## Records -/

/-- The members of an object from after members with known names: the further known ones, in any order
and each of them once, and any number of members whose keys are of the form `other`. The last list names
all known members that stand there or before. -/
inductive Gathers (known : List (String × Form)) (other : Form) :
    (seen : List String) → List (Form × Form) → (found : List String) → Prop
  | nil {seen : List String} : Gathers known other seen [] seen
  | known {seen found : List String} {name : String} {form : Form} {members : List (Form × Form)} :
    (name, form) ∈ known → name ∉ seen → Gathers known other (name :: seen) members found →
    Gathers known other seen ((.string name, form) :: members) found
  | other {seen found : List String} {members : List (Form × Form)} :
    Gathers known other seen members found →
    Gathers known other seen ((other, .value) :: members) found

theorem Gathers.mem_of_found {known : List (String × Form)} {other : Form} {seen found : List String}
    {members : List (Form × Form)} (gathers : Gathers known other seen members found) :
    ∀ name ∈ found, name ∈ seen ∨ ∃ form, (name, form) ∈ known := by
  induction gathers with
  | nil => exact fun _ => .inl
  | known mem _ _ ih =>
    intro name again
    rcases ih name again with before | known
    · rcases List.mem_cons.mp before with rfl | before
      · exact .inr ⟨_, mem⟩
      · exact .inl before
    · exact .inr known
  | other _ ih => exact ih

/-- A key that spells none of the given names. -/
def Form.otherKey (names : List String) : Form := fun text =>
  ∃ name, name ∉ names ∧ Form.string name text

/-- The record reads members of the given names and forms in any order. When the members with some of
the names have been read, its value depends on these names only. -/
structure Record.Admits (record : Record α) (known : List (String × Form))
    (filled : List String → α) (result : α) : Prop where
  blank : filled [] = record.blank
  field : ∀ entry ∈ known, ∃ field, record.fields.find? (·.key == entry.1) = some field ∧
    ∃ change, field.read.Reads entry.2 change ∧
      ∀ seen, entry.1 ∉ seen → change (filled seen) = filled (entry.1 :: seen)
  other : ∀ name, name ∉ known.map Prod.fst → record.fields.find? (·.key == name) = none
  finish : ∀ seen, (∀ entry ∈ known, entry.1 ∈ seen) → record.finish seen (filled seen) = .ok result

theorem Series.ends {forms : List Form} (series : Series false forms inner) (ends : Ends rest) :
    Ends (inner ++ rest) := by
  cases series with
  | nil => exact ends
  | cons lead _ _ => exact lead.ends

theorem Form.member.length_pos {key value : Form} (written : Form.member key value text) :
    0 < text.length := by
  cases written
  exact Nat.succ_pos _

theorem Series.length_le {members : List (Form × Form)}
    (series : Series first (members.map fun entry => Form.member entry.1 entry.2) inner) :
    members.length ≤ inner.length := by
  induction members generalizing first inner with
  | nil => exact Nat.zero_le _
  | cons member members ih =>
    cases series with
    | cons lead written more =>
      have := written.length_pos
      have := ih more
      simp only [List.length_append, List.length_cons]
      omega

theorem Record.members_other (record : Record α) {fuel : Nat} {seen : List String} {value : α}
    {names : List String} (unknown : ∀ name, name ∉ names → record.fields.find? (·.key == name) = none)
    (lead : Lead first gap) (written : Form.member (.otherKey names) .value text) (ends : Ends rest) :
    record.members (fuel + 1) seen first value (gap ++ (text ++ rest)) =
      record.members fuel seen false value rest := by
  obtain ⟨⟨name, other, string⟩, before, after, formed⟩ := written
  simp only [List.cons_append, List.append_assoc]
  rw [record.members_key lead (spells_string string), unknown name other]
  simp only [colon_append before, formed.skipValue after ends, bind, Except.bind]

namespace Record.Admits

variable {record : Record α} {known : List (String × Form)} {filled : List String → α} {result : α}

/-- Members are read one after the other, and the others among them leave the record as it is. -/
theorem members_series (admits : record.Admits known filled result) {seen found : List String}
    {members : List (Form × Form)}
    (gathers : Gathers known (.otherKey (known.map Prod.fst)) seen members found)
    (series : Series first (members.map fun entry => Form.member entry.1 entry.2) inner)
    (ends : Ends rest) (fuel : Nat) :
    record.members (fuel + members.length) seen first (filled seen) (inner ++ rest) =
      record.members fuel found (first && members.isEmpty) (filled found) rest := by
  induction gathers generalizing first inner with
  | nil =>
    cases series
    simp
  | @known seen found name form members mem fresh gathers ih =>
    cases series with
    | cons lead written more =>
      obtain ⟨field, known, change, reads, grows⟩ := admits.field _ mem
      have member := memberText_of_form reads written
      simp only [List.append_assoc, List.length_cons, ← Nat.add_assoc]
      rw [record.members_field lead known fresh member (more.ends ends), grows seen fresh, ih more]
      simp
  | other gathers ih =>
    cases series with
    | cons lead written more =>
      simp only [List.append_assoc, List.length_cons, ← Nat.add_assoc]
      rw [record.members_other admits.other lead written (more.ends ends), ih more]
      simp

/-- The members at the start of an object are read, with a bound left for those behind them. -/
theorem read_series (admits : record.Admits known filled result) {found : List String}
    {members : List (Form × Form)} {input : Octets}
    (gathers : Gathers known (.otherKey (known.map Prod.fst)) [] members found)
    (series : Series true (members.map fun entry => Form.member entry.1 entry.2) inner)
    (ends : Ends rest) (start : afterBlanks input = Octet.openBrace :: (inner ++ rest)) :
    ∃ fuel, record.read input =
      record.members (fuel + 1) found members.isEmpty (filled found) rest := by
  have few := series.length_le
  obtain ⟨fuel, enough⟩ : ∃ fuel, (inner ++ rest).length + 1 = fuel + 1 + members.length :=
    ⟨(inner ++ rest).length - members.length, by simp only [List.length_append]; omega⟩
  refine ⟨fuel, ?_⟩
  have all := admits.members_series gathers series ends (fuel + 1)
  rw [← enough, admits.blank, Bool.true_and] at all
  rw [Record.read, start]
  exact all

/-- An object with all known members, in any order and among others, is read. -/
theorem reads_object (admits : record.Admits known filled result) {found : List String}
    {members : List (Form × Form)}
    (gathers : Gathers known (.otherKey (known.map Prod.fst)) [] members found)
    (complete : ∀ entry ∈ known, entry.1 ∈ found) : record.read.Reads (.object members) result where
  takes := by
    rintro text ⟨series, blank⟩
    refine ⟨⟨_, _, rfl, rfl, by decide⟩, ?_⟩
    intro input rest start _
    simp only [List.cons_append, List.append_assoc, List.nil_append] at start
    have ends : Ends (_ ++ Octet.closeBrace :: rest) := .append blank (ends_cons (by decide))
    obtain ⟨fuel, read⟩ := admits.read_series gathers series ends start
    rw [read, record.members_close blank, admits.finish found complete]
    rfl

/-- An object in which a known member is repeated is refused when the second key has been read, whatever
stands behind it. -/
theorem read_repeated (admits : record.Admits known filled result) {found : List String}
    {members : List (Form × Form)} {name : String} {input : Octets}
    (gathers : Gathers known (.otherKey (known.map Prod.fst)) [] members found)
    (series : Series true (members.map fun entry => Form.member entry.1 entry.2) inner)
    (again : name ∈ found) (lead : Lead false gap)
    (string : Form.string name key)
    (start : afterBlanks input =
      Octet.openBrace :: (inner ++ (gap ++ Octet.quote :: (key ++ rest)))) :
    record.read input = .error (.mismatch (.duplicateField name)) := by
  obtain ⟨form, mem⟩ := (gathers.mem_of_found name again).resolve_left nofun
  obtain ⟨field, known, -⟩ := admits.field _ mem
  have later : members.isEmpty = false := by
    cases gathers with
    | nil => cases again
    | known => rfl
    | other => rfl
  have ends : Ends (gap ++ (Octet.quote :: key) ++ rest) := lead.ends
  rw [List.append_assoc, List.cons_append] at ends
  obtain ⟨fuel, read⟩ := admits.read_series gathers series ends start
  rw [read, later, record.members_key lead (spells_string string), known]
  exact if_pos again

end Record.Admits
end AllPairs.Json
