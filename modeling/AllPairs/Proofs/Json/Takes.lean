import AllPairs.Json.Reader

/-!
# Texts that a reader takes

A reader gets all of the unread input. That it takes a text for a value is therefore a statement about
every input that goes on with that text: blanks before it do not matter, and neither does what follows,
as long as it does not prolong a number in which the text may end.
-/

namespace AllPairs.Json

variable {α β : Type} {gap text rest : Octets}

/-- The octets may stand between tokens. -/
def Blank (gap : Octets) : Prop :=
  ∀ c ∈ gap, Octet.isBlank c

/-- A number that is followed by this octet is not over. -/
def Prolongs (c : UInt8) : Prop :=
  Octet.isDigit c ∨ c = Octet.point ∨ c = Octet.smallE ∨ c = Octet.capitalE

instance (c : UInt8) : Decidable (Prolongs c) := inferInstanceAs (Decidable (_ ∨ _))

/-- The octets do not start with a digit. -/
def NoDigit (rest : Octets) : Prop :=
  ∀ c ∈ rest.head?, ¬ Octet.isDigit c

/-- A number is over before these octets. -/
def Ends (rest : Octets) : Prop :=
  ∀ c ∈ rest.head?, ¬ Prolongs c

/-- The text starts with an octet that is neither blank nor the end of a list. -/
def Visible (text : Octets) : Prop :=
  ∃ c tail, text = c :: tail ∧ Octet.isBlank c = false ∧ c ≠ Octet.closeBracket

/-- The reader takes the text for the value. -/
structure Reader.Takes (reader : Reader α) (text : Octets) (value : α) : Prop where
  visible : Visible text
  reads {input rest : Octets} : afterBlanks input = text ++ rest → Ends rest →
    reader input = .ok (value, rest)

/-! ## Blanks -/

theorem blank_nil : Blank [] := by
  simp [Blank]

theorem afterBlanks_append (blank : Blank gap) : afterBlanks (gap ++ rest) = afterBlanks rest :=
  List.dropWhile_append_of_pos blank

theorem afterBlanks_cons {c : UInt8} (shown : Octet.isBlank c = false) :
    afterBlanks (c :: rest) = c :: rest :=
  List.dropWhile_cons_of_neg (by simp [shown])

/-- The next token behind blanks. -/
theorem afterBlanks_append_cons {c : UInt8} (blank : Blank gap) (shown : Octet.isBlank c = false) :
    afterBlanks (gap ++ c :: rest) = c :: rest := by
  rw [afterBlanks_append blank, afterBlanks_cons shown]

theorem afterBlanks_eq_nil (blank : Blank gap) : afterBlanks gap = [] := by
  rw [← List.append_nil gap, afterBlanks_append blank]
  rfl

namespace Visible

theorem afterBlanks_append (visible : Visible text) : afterBlanks (text ++ rest) = text ++ rest := by
  obtain ⟨c, tail, rfl, shown, -⟩ := visible
  exact afterBlanks_cons shown

theorem afterBlanks (visible : Visible text) : Json.afterBlanks text = text := by
  rw [← List.append_nil text, visible.afterBlanks_append]

theorem length_pos (visible : Visible text) : 0 < text.length := by
  obtain ⟨c, tail, rfl, -⟩ := visible
  exact Nat.succ_pos _

end Visible

/-! ## What may follow a value -/

theorem ends_nil : Ends [] := by
  simp [Ends]

theorem ends_cons {c : UInt8} (other : ¬ Prolongs c) : Ends (c :: rest) := by
  simpa [Ends] using other

theorem Ends.noDigit (ends : Ends rest) : NoDigit rest :=
  fun c head digit => ends c head (.inl digit)

theorem not_prolongs_of_isBlank {c : UInt8} (blank : Octet.isBlank c) : ¬ Prolongs c := by
  simp only [Octet.isBlank, Bool.or_eq_true, beq_iff_eq] at blank
  obtain ((rfl | rfl) | rfl) | rfl := blank <;> decide

theorem Ends.append (blank : Blank gap) (ends : Ends rest) : Ends (gap ++ rest) := by
  cases gap with
  | nil => exact ends
  | cons c gap => exact ends_cons (not_prolongs_of_isBlank (blank c (List.mem_cons_self ..)))

namespace Reader.Takes

variable {reader : Reader α} {value : α}

theorem map (takes : reader.Takes text value) (f : α → β) :
    (reader.map f).Takes text (f value) where
  visible := takes.visible
  reads start ends := by simp [Reader.map, takes.reads start ends, Except.map]

theorem reads_behind (takes : reader.Takes text value) (blank : Blank gap) (ends : Ends rest) :
    reader (gap ++ (text ++ rest)) = .ok (value, rest) := by
  apply takes.reads _ ends
  rw [afterBlanks_append blank, takes.visible.afterBlanks_append]

theorem reads_append (takes : reader.Takes text value) (ends : Ends rest) :
    reader (text ++ rest) = .ok (value, rest) :=
  takes.reads_behind blank_nil ends

/-- A text as a whole document, between blanks. -/
theorem document {before after : Octets} (takes : reader.Takes text value) (lead : Blank before)
    (trail : Blank after) : document reader (before ++ (text ++ after)) = .ok value := by
  have ends : Ends after := by
    rw [← List.append_nil after]
    exact ends_nil.append trail
  simp [Json.document, takes.reads_behind lead ends, bind, Except.bind, afterBlanks_eq_nil trail]

end Reader.Takes

/-- A document is a value with nothing but blanks behind it. -/
theorem document_eq_ok {reader : Reader α} {input : Octets} {value : α} :
    document reader input = .ok value ↔
      ∃ rest, reader input = .ok (value, rest) ∧ afterBlanks rest = [] := by
  constructor
  · intro whole
    cases scan : reader input with
    | error => simp [document, scan, bind, Except.bind] at whole
    | ok read =>
      simp only [document, scan, bind, Except.bind, List.isEmpty_iff] at whole
      split at whole
      next trail =>
        obtain rfl := Except.ok.inj whole
        exact ⟨read.2, rfl, trail⟩
      next => cases whole
  · rintro ⟨rest, scan, trail⟩
    simp [document, scan, bind, Except.bind, trail]

end AllPairs.Json
