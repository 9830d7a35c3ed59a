import AllPairs.Proofs.Json.Forms

/-!
# Texts that are cut off

What a reader says of a text that is cut off anywhere: that the input has ended, and never that something
is wrong with it. A number is the exception, since a part of its digits is a number too; but then nothing
is left of the input, so whatever the number belongs to is found to be unfinished.
-/

namespace AllPairs.Json

variable {α β : Type} {first : Bool} {gap text part inner : Octets}

/-- The octets are the start of the text, but not all of it. -/
def Cut (part text : Octets) : Prop := part <+: text ∧ part ≠ text

/-- The input has ended too early. -/
def Ended (outcome : Except Fault β) : Prop :=
  ∃ unfinished, outcome = .error (.ended unfinished)

/-- The input has ended too early, unless something was read of which `later` holds. -/
def Until (outcome : Except Fault α) (later : α → Prop) : Prop :=
  Ended outcome ∨ ∃ value, outcome = .ok value ∧ later value

/-- The reader takes every text of the form, and with less than all of the text the input has ended too
early or has just been used up. -/
structure Reader.NeedsAll (reader : Reader α) (form : Form) : Prop where
  takes {text : Octets} : form text → ∃ value, reader.Takes text value
  runsOut {text part input : Octets} : form text → Cut part text → afterBlanks input = part →
    Until (reader input) fun read => read.2 = []

/-! ## Reading step by step -/

theorem Ended.bind {outcome : Except Fault α} {next : α → Except Fault β} (ended : Ended outcome) :
    Ended (outcome >>= next) := by
  obtain ⟨unfinished, rfl⟩ := ended
  exact ⟨unfinished, rfl⟩

namespace Until

variable {outcome : Except Fault α} {later : α → Prop}

theorem bind {next : α → Except Fault β} (early : Until outcome later)
    (ended : ∀ value, later value → Ended (next value)) : Ended (outcome >>= next) := by
  rcases early with early | ⟨value, rfl, after⟩
  · exact early.bind
  · exact ended value after

theorem map (early : Until outcome later) (f : α → β) :
    Until (outcome.map f) fun value => ∃ source, value = f source ∧ later source := by
  rcases early with ⟨unfinished, rfl⟩ | ⟨value, rfl, after⟩
  · exact .inl ⟨unfinished, rfl⟩
  · exact .inr ⟨f value, rfl, value, rfl, after⟩

theorem mono {weaker : α → Prop} (early : Until outcome later)
    (weakens : ∀ value, later value → weaker value) : Until outcome weaker :=
  early.imp_right fun ⟨value, read, after⟩ => ⟨value, read, weakens value after⟩

end Until

/-! ## Parts of texts -/

theorem not_cut_nil : ¬ Cut part [] :=
  fun cut => cut.2 (List.prefix_nil.mp cut.1)

theorem Cut.cons {c : UInt8} (cut : Cut part (c :: text)) :
    part = [] ∨ ∃ tail, part = c :: tail ∧ Cut tail text := by
  cases part with
  | nil => exact .inl rfl
  | cons d tail =>
    obtain ⟨⟨missing, shape⟩, proper⟩ := cut
    obtain ⟨rfl, rfl⟩ := List.cons.inj shape
    exact .inr ⟨tail, rfl, List.prefix_append .., fun same => proper (congrArg _ same)⟩

theorem Cut.append {more : Octets} (cut : Cut part (text ++ more)) :
    Cut part text ∨ ∃ tail, part = text ++ tail ∧ Cut tail more := by
  induction text generalizing part with
  | nil => exact .inr ⟨part, rfl, cut⟩
  | cons c text ih =>
    rcases cut.cons with rfl | ⟨tail, rfl, further⟩
    · exact .inl ⟨List.nil_prefix, nofun⟩
    · rcases ih further with inside | ⟨behind, rfl, behindCut⟩
      · exact .inl ⟨List.cons_prefix_cons.mpr ⟨rfl, inside.1⟩,
          fun same => inside.2 (List.cons.inj same).2⟩
      · exact .inr ⟨behind, rfl, behindCut⟩

theorem Cut.length_lt (cut : Cut part text) : part.length < text.length := by
  rcases Nat.lt_or_eq_of_le cut.1.length_le with shorter | same
  · exact shorter
  · exact absurd (cut.1.eq_of_length same) cut.2

theorem Cut.ends (cut : Cut part text) (ends : Ends text) : Ends part := by
  obtain ⟨⟨missing, rfl⟩, -⟩ := cut
  cases part with
  | nil => exact ends_nil
  | cons c part => exact fun d head => ends d head

theorem Visible.cut_nil (visible : Visible text) : Cut [] text := by
  obtain ⟨c, tail, rfl, -⟩ := visible
  exact ⟨List.nil_prefix, nofun⟩

theorem Visible.append (visible : Visible text) (more : Octets) : Visible (text ++ more) := by
  obtain ⟨c, tail, rfl, shown, other⟩ := visible
  exact ⟨c, tail ++ more, rfl, shown, other⟩

theorem Cut.visible {c : UInt8} (cut : Cut (c :: part) text) (visible : Visible text) :
    Visible (c :: part) := by
  obtain ⟨d, tail, rfl, shown, other⟩ := visible
  obtain ⟨⟨missing, shape⟩, -⟩ := cut
  obtain ⟨rfl, -⟩ := List.cons.inj shape
  exact ⟨c, part, rfl, shown, other⟩

/-- A text behind a gap is cut off in the gap or later. -/
theorem Cut.behind (cut : Cut part (gap ++ text)) :
    part <+: gap ∨ ∃ c tail, part = gap ++ c :: tail ∧ Cut (c :: tail) text := by
  rcases cut.append with before | ⟨behind, rfl, later⟩
  · exact .inl before.1
  · cases behind with
    | nil => exact .inl ⟨[], by simp⟩
    | cons c tail => exact .inr ⟨c, tail, rfl, later⟩

/-- A closing mark that is cut off leaves what stands before it. -/
theorem Cut.before {c : UInt8} (cut : Cut part (gap ++ [c])) : part <+: gap := by
  rcases cut.behind with before | ⟨_, _, rfl, mark⟩
  · exact before
  · rcases mark.cons with none | ⟨_, -, none⟩
    · cases none
    · exact absurd none not_cut_nil

theorem Blank.start (blank : Blank gap) (start : part <+: gap) : Blank part :=
  fun c mem => blank c (start.subset mem)

/-! ## Strings -/

theorem codeUnit_short {input : Octets} (short : input.length < 4) :
    codeUnit input = .error (.ended .text) := by
  unfold codeUnit
  split
  · simp only [List.length_cons] at short
    omega
  · rfl

theorem UnitText.length {unit : Nat} (digits : UnitText unit text) : text.length = 4 := by
  cases digits
  rfl

theorem UnitText.codeUnit_cut {unit : Nat} (digits : UnitText unit text) (cut : Cut part text) :
    Json.codeUnit part = .error (.ended .text) :=
  codeUnit_short (digits.length ▸ cut.length_lt)

theorem textContent_nil : textContent [] = .error (.ended .text) := by
  rw [textContent]

theorem textContent_backslash : textContent [Octet.backslash] = .error (.ended .text) := by
  rw [textContent]
  rfl

/-- An escape for one unit that is cut off behind its backslash. -/
theorem UnitText.textContent_cut {unit : Nat} (digits : UnitText unit text)
    (cut : Cut part (Octet.smallU :: text)) :
    textContent (Octet.backslash :: part) = .error (.ended .text) := by
  rcases cut.cons with rfl | ⟨tail, rfl, inside⟩
  · exact textContent_backslash
  · apply textContent_escape_error
    rw [unicodeEscape, digits.codeUnit_cut inside]
    rfl

/-- A pair of units that is cut off behind its first unit. -/
theorem unicodeEscape_cut {high low : Nat} {first second : Octets} (isFirst : IsFirstHalf high)
    (highText : UnitText high first) (lowText : UnitText low second)
    (cut : Cut part (Octet.backslash :: Octet.smallU :: second)) :
    unicodeEscape (first ++ part) = .error (.ended .text) := by
  rcases cut.cons with rfl | ⟨tail, rfl, escape⟩
  · obtain ⟨_, read⟩ := highText.codeUnit []
    rw [unicodeEscape, read]
    exact (if_neg isFirst.not_second).trans (if_pos isFirst)
  · rcases escape.cons with rfl | ⟨digits, rfl, inside⟩
    · obtain ⟨_, read⟩ := highText.codeUnit [Octet.backslash]
      rw [unicodeEscape, read]
      exact (if_neg isFirst.not_second).trans (if_pos isFirst)
    · obtain ⟨_, escape⟩ := unicodeEscape_half isFirst highText digits
      rw [escape, lowText.codeUnit_cut inside]
      rfl

theorem CharText.textContent_cut {c : Char} (char : CharText c text) (cut : Cut part text) :
    textContent part = .error (.ended .text) := by
  cases char with
  | plain unescaped =>
    have all := plain_utf8EncodeChar unescaped.1 unescaped.2.1 unescaped.2.2
    rw [← List.append_nil part, textContent_plain fun b mem => all b (cut.1.subset mem),
      textContent_nil]
    rfl
  | short _ =>
    rcases cut.cons with rfl | ⟨tail, rfl, escape⟩
    · exact textContent_nil
    · rcases escape.cons with rfl | ⟨_, rfl, none⟩
      · exact textContent_backslash
      · exact absurd none not_cut_nil
  | unit digits =>
    rcases cut.cons with rfl | ⟨tail, rfl, escape⟩
    · exact textContent_nil
    · exact digits.textContent_cut escape
  | @pair _ _ _ first second isFirst _ _ highText lowText =>
    rcases cut.cons with rfl | ⟨tail, rfl, escape⟩
    · exact textContent_nil
    · have units : Cut tail ((Octet.smallU :: first) ++ (Octet.backslash :: Octet.smallU :: second)) :=
        escape
      rcases units.append with one | ⟨behind, rfl, two⟩
      · exact highText.textContent_cut one
      · exact textContent_escape_error (unicodeEscape_cut isFirst highText lowText two)

theorem StringText.textContent_cut {cs : List Char} (string : StringText cs text)
    (cut : Cut part text) : textContent part = .error (.ended .text) := by
  induction string generalizing part with
  | close =>
    rcases cut.cons with rfl | ⟨_, rfl, none⟩
    · exact textContent_nil
    · exact absurd none not_cut_nil
  | char char _ ih =>
    rcases cut.append with inside | ⟨behind, rfl, later⟩
    · exact char.textContent_cut inside
    · rw [textContent_charText char, ih later]
      rfl

theorem readText_cut {name : String} (string : Form.string name text) (cut : Cut part text) :
    readText part = .error (.ended .text) := by
  rw [readText, StringText.textContent_cut string cut]
  rfl

/-! ## Numbers -/

theorem WholeNumeral.cut (whole : WholeNumeral text) (cut : Cut part text) (nonempty : part ≠ []) :
    WholeNumeral part where
  nonempty := nonempty
  allDigits := fun c mem => whole.allDigits c (cut.1.subset mem)
  lead := by
    intro zero
    obtain ⟨c, tail, rfl⟩ := List.exists_cons_of_ne_nil nonempty
    obtain ⟨⟨missing, rfl⟩, -⟩ := cut
    have alone := whole.lead zero
    obtain ⟨nothing, -⟩ := List.append_eq_nil_iff.mp (List.cons.inj alone).2
    rw [nothing, (List.cons.inj alone).1]

theorem le_foldl_digits (value : Nat) (digits : List Nat) :
    value ≤ digits.foldl (fun value digit => 10 * value + digit) value := by
  induction digits generalizing value with
  | nil => exact Nat.le_refl value
  | cons digit digits ih => exact Nat.le_trans (by omega) (ih (10 * value + digit))

/-- A part of the digits of a number stands for a number that is not larger. -/
theorem ofDigits_append_le (digits more : List Nat) :
    Decimal.ofDigits digits ≤ Decimal.ofDigits (digits ++ more) := by
  rw [Decimal.ofDigits, Decimal.ofDigits, List.foldl_append]
  exact le_foldl_digits _ more

theorem natural_needsAll {n : Nat} (small : n < wordSize) : natural.NeedsAll (.natural n) where
  takes written := ⟨n, (natural_reads small).takes written⟩
  runsOut := by
    rintro text part input rfl cut start
    cases part with
    | nil =>
      refine .inl ⟨.value, ?_⟩
      rw [natural, naturalWith, anyNumber, start]
      rfl
    | cons c tail =>
      have whole := (wholeNumeral_toString n).cut cut (List.cons_ne_nil c tail)
      obtain ⟨⟨missing, shape⟩, -⟩ := cut
      have below : Decimal.ofDigits ((c :: tail).map Octet.digitValue) < wordSize := by
        have grows :=
          ofDigits_append_le ((c :: tail).map Octet.digitValue) (missing.map Octet.digitValue)
        rw [← List.map_append, shape, ofDigits_toString] at grows
        exact Nat.lt_of_le_of_lt grows small
      exact .inr ⟨_, (whole.takes below rfl).reads (by rw [start, List.append_nil]) ends_nil, rfl⟩

/-! ## Between parts -/

/-- What is left of the gap before an item or a member: blanks, or a comma with blanks around it. -/
theorem Lead.start (lead : Lead first gap) (start : part <+: gap) :
    Blank part ∨ first = false ∧ ∃ before after, part = before ++ Octet.comma :: after ∧
      Blank before ∧ Blank after := by
  cases lead with
  | first blank => exact .inl (blank.start start)
  | @later before after blank trail =>
    obtain ⟨missing, shape⟩ := start
    rcases List.append_eq_append_iff.mp shape with ⟨inside, rfl, -⟩ | ⟨behind, rfl, tail⟩
    · exact .inl (blank.start (List.prefix_append ..))
    · cases behind with
      | nil => exact .inl (by rwa [List.append_nil])
      | cons c behind =>
        obtain ⟨rfl, rfl⟩ := List.cons.inj tail
        exact .inr ⟨rfl, before, behind, rfl, blank, trail.start (List.prefix_append ..)⟩

theorem nextItem_blank (blank : Blank part) : Ended (nextItem first part) :=
  ⟨.list, by simp only [nextItem, afterBlanks_eq_nil blank]⟩

theorem nextItem_start (lead : Lead first gap) (start : part <+: gap) :
    Ended (nextItem first part) := by
  rcases lead.start start with blank | ⟨rfl, before, after, rfl, blank, trail⟩
  · exact nextItem_blank blank
  · have comma : Octet.comma ≠ Octet.closeBracket := by decide
    refine ⟨.value, ?_⟩
    simp only [nextItem, afterBlanks_append_cons (c := Octet.comma) blank rfl, if_neg comma,
      afterBlanks_eq_nil trail, if_true, Bool.false_eq_true, if_false]

theorem nextMember_blank (blank : Blank part) : Ended (nextMember first part) :=
  ⟨.object, by simp only [nextMember, afterBlanks_eq_nil blank]⟩

theorem nextMember_start (lead : Lead first gap) (start : part <+: gap) :
    Ended (nextMember first part) := by
  rcases lead.start start with blank | ⟨rfl, before, after, rfl, blank, trail⟩
  · exact nextMember_blank blank
  · have comma : Octet.comma ≠ Octet.closeBrace := by decide
    refine ⟨.value, ?_⟩
    simp only [nextMember, afterBlanks_append_cons (c := Octet.comma) blank rfl, if_neg comma,
      afterBlanks_eq_nil trail, if_true, Bool.false_eq_true, if_false]

theorem colon_blank (blank : Blank part) : Ended (colon part) :=
  ⟨.object, by simp only [colon, afterBlanks_eq_nil blank]⟩

theorem endList_blank (blank : Blank part) : Ended (endList part) :=
  ⟨.list, by simp only [endList, afterBlanks_eq_nil blank]⟩

theorem Series.ends_close {forms : List Form} {c : UInt8} (series : Series false forms inner)
    (blank : Blank gap) (other : ¬ Prolongs c) : Ends (inner ++ (gap ++ [c])) :=
  series.ends (.append blank (ends_cons other))

/-- A member starts with the quote of its key. -/
theorem Cut.quote {key value : Form} {c : UInt8} {more : Octets} (cut : Cut (c :: part) (text ++ more))
    (written : Form.member key value text) : Octet.quote = c := by
  cases written
  obtain ⟨_, shape, -⟩ := cut.cons.resolve_left nofun
  exact (List.cons.inj shape).1.symm

namespace Reader.NeedsAll

variable {reader : Reader α} {form : Form} {more : Octets}

theorem map (needs : reader.NeedsAll form) (f : α → β) : (reader.map f).NeedsAll form where
  takes written := by
    obtain ⟨value, taken⟩ := needs.takes written
    exact ⟨f value, taken.map f⟩
  runsOut written cut start := by
    refine ((needs.runsOut written cut start).map _).mono ?_
    rintro _ ⟨read, rfl, none⟩
    exact none

/-- A text with more behind it is cut off: the reader finds that the input has ended, or it leaves some
of what is behind the text, but not all of it. -/
theorem cut (needs : reader.NeedsAll form) (written : form text) (blank : Blank gap) (ends : Ends more)
    (nonempty : more ≠ []) (cut : Cut part (gap ++ (text ++ more))) :
    Until (reader part) fun read => Cut read.2 more := by
  obtain ⟨value, taken⟩ := needs.takes written
  -- A part of the text may be read as another value, but then it leaves nothing, and more was to follow.
  have runsOut {inside : Octets} (start : afterBlanks part = inside) (inner : Cut inside text) :
      Until (reader part) fun read => Cut read.2 more := by
    refine (needs.runsOut written inner start).mono fun read none => ?_
    exact none ▸ ⟨List.nil_prefix, nonempty.symm⟩
  rcases cut.behind with before | ⟨c, tail, rfl, later⟩
  · exact runsOut (afterBlanks_eq_nil (blank.start before)) taken.visible.cut_nil
  · rcases later.append with inside | ⟨rest, shape, behind⟩
    · have shown := (inside.visible taken.visible).afterBlanks
      exact runsOut ((afterBlanks_append blank).trans shown) inside
    · rw [shape]
      exact .inr ⟨_, taken.reads_behind blank (behind.ends ends), behind⟩

/-- An item that is cut off, with more behind it. -/
theorem item_cut (needs : reader.NeedsAll form) (written : form text) (lead : Lead first gap)
    (ends : Ends more) (nonempty : more ≠ []) (cut : Cut part (gap ++ (text ++ more))) :
    Until (nextItem first part) fun found => ∃ start, found = some start ∧
      Until (reader start) fun read => Cut read.2 more := by
  rcases cut.behind with before | ⟨c, tail, rfl, inside⟩
  · exact .inl (nextItem_start lead before)
  · obtain ⟨value, taken⟩ := needs.takes written
    have visible := inside.visible (taken.visible.append more)
    have start : nextItem first (gap ++ (c :: tail ++ [])) = _ := nextItem_lead lead visible
    rw [List.append_nil] at start
    exact .inr ⟨_, start, _, rfl, needs.cut written blank_nil ends nonempty inside⟩

/-- A member that is cut off behind its opening quote, with more behind the member. -/
theorem member_cut (needs : reader.NeedsAll form) {name : String}
    (written : Form.member (.string name) form text) (ends : Ends more) (nonempty : more ≠ [])
    (cut : Cut (Octet.quote :: part) (text ++ more)) :
    Until (readText part) fun key => key.1 = name ∧
      Until (colon key.2) fun start => Until (reader start) fun read => Cut read.2 more := by
  obtain ⟨string, blank, trail, content⟩ := written
  simp only [List.append_assoc, List.cons_append] at cut
  obtain ⟨_, shape, inside⟩ := cut.cons.resolve_left nofun
  obtain rfl := (List.cons.inj shape).2
  rcases inside.append with key | ⟨behind, rfl, later⟩
  · exact .inl ⟨_, readText_cut string key⟩
  · refine .inr ⟨_, spells_string string behind, rfl, ?_⟩
    rcases later.behind with before | ⟨c, tail, rfl, mark⟩
    · exact .inl (colon_blank (blank.start before))
    · obtain ⟨_, shape, after⟩ := mark.cons.resolve_left nofun
      obtain ⟨rfl, rfl⟩ := List.cons.inj shape
      exact .inr ⟨_, colon_append blank, needs.cut content trail ends nonempty after⟩

end Reader.NeedsAll

/-! ## Lists -/

/-- Items in a text that is cut off. What an item was read as does not matter, since the end of the list
is missing in any case. -/
theorem items_cut {item : Reader α} {forms : List Form} (needs : ∀ form ∈ forms, item.NeedsAll form)
    (series : Series first forms inner) (blank : Blank gap)
    (cut : Cut part (inner ++ (gap ++ [Octet.closeBracket]))) (fuel : Nat) :
    Ended (items item fuel first part) := by
  induction series generalizing part fuel with
  | nil =>
    cases fuel with
    | zero => exact ⟨_, rfl⟩
    | succ fuel =>
      rw [items]
      exact (nextItem_blank (blank.start cut.before)).bind
  | cons lead written more ih =>
    obtain ⟨head, tail⟩ := List.forall_mem_cons.mp needs
    cases fuel with
    | zero => exact ⟨_, rfl⟩
    | succ fuel =>
      have ends := more.ends_close (c := Octet.closeBracket) blank (by decide)
      simp only [List.append_assoc] at cut
      rw [items]
      refine (head.item_cut written lead ends (by simp) cut).bind ?_
      rintro _ ⟨start, rfl, one⟩
      refine one.bind fun read later => ?_
      exact (ih tail later fuel).bind

theorem list_needsAll {item : Reader α} {form : α → Form} {values : List α}
    (reads : ∀ value ∈ values, item.Reads (form value) value)
    (needs : ∀ value ∈ values, item.NeedsAll (form value)) :
    (list item).NeedsAll (.array (values.map form)) where
  takes written := ⟨values, (list_reads reads).takes written⟩
  runsOut := by
    rintro _ part input ⟨series, blank⟩ cut start
    rcases cut.cons with rfl | ⟨tail, rfl, inside⟩
    · exact .inl ⟨.value, by rw [list, start]⟩
    · have ended := items_cut (List.forall_mem_map.mpr needs) series blank inside (tail.length + 1)
      exact .inl (by rwa [list, start])

/-! ## Records -/

/-- Fields by position in a text that is cut off. -/
theorem Record.inOrder_cut (record : Record α) {entries : List (Field α × Form)}
    (needs : ∀ entry ∈ entries, entry.1.read.NeedsAll entry.2) {index : Nat}
    (series : Series (index == 0) (entries.map Prod.snd) inner) (blank : Blank gap)
    (cut : Cut part (inner ++ (gap ++ [Octet.closeBracket]))) (value : α) :
    Ended (record.inOrder (entries.map Prod.fst) index value part) := by
  induction entries generalizing index inner part value with
  | nil =>
    cases series
    exact (endList_blank (blank.start cut.before)).bind
  | cons entry entries ih =>
    obtain ⟨head, tail⟩ := List.forall_mem_cons.mp needs
    cases series with
    | cons lead written more =>
      have ends := more.ends_close (c := Octet.closeBracket) blank (by decide)
      simp only [List.append_assoc] at cut
      refine (head.item_cut written lead ends (by simp) cut).bind ?_
      rintro _ ⟨start, rfl, one⟩
      exact one.bind fun read later => @ih read.2 _ tail (index + 1) more later (read.1 value)

/-- Members of different fields, each of them once, in a text that is cut off. -/
theorem Record.members_cut (record : Record α) {entries : List (String × Form)}
    (known : ∀ entry ∈ entries, ∃ field, record.fields.find? (·.key == entry.1) = some field ∧
      field.read.NeedsAll entry.2)
    (distinct : (entries.map Prod.fst).Nodup) {seen : List String}
    (fresh : ∀ entry ∈ entries, entry.1 ∉ seen)
    (series : Series first (entries.map fun entry => Form.member (.string entry.1) entry.2) inner)
    (blank : Blank gap) (cut : Cut part (inner ++ (gap ++ [Octet.closeBrace]))) (fuel : Nat)
    (value : α) : Ended (record.members fuel seen first value part) := by
  induction entries generalizing first inner part fuel value seen with
  | nil =>
    cases series
    cases fuel with
    | zero => exact ⟨_, rfl⟩
    | succ fuel =>
      rw [members]
      exact (nextMember_blank (blank.start cut.before)).bind
  | cons entry entries ih =>
    obtain ⟨⟨field, found, head⟩, tail⟩ := List.forall_mem_cons.mp known
    obtain ⟨freshHead, freshTail⟩ := List.forall_mem_cons.mp fresh
    obtain ⟨other, distinctTail⟩ := List.nodup_cons.mp distinct
    cases fuel with
    | zero => exact ⟨_, rfl⟩
    | succ fuel =>
      cases series with
      | cons lead written more =>
        have ends := more.ends_close (c := Octet.closeBrace) blank (by decide)
        simp only [List.append_assoc] at cut
        rw [members]
        rcases cut.behind with before | ⟨c, key, rfl, inside⟩
        · exact (nextMember_start lead before).bind
        · obtain rfl := inside.quote written
          rw [nextMember_lead lead, memberKey_quote]
          refine ((head.member_cut written ends (by simp) inside).map _).bind ?_
          rintro _ ⟨⟨_, behind⟩, rfl, rfl, mark⟩
          -- The key is whole and one that was not there yet; what follows it is cut off.
          simp only [found, if_neg freshHead]
          refine mark.bind fun start content => content.bind fun read later => ?_
          have unseen : ∀ next ∈ entries, next.1 ∉ entry.1 :: seen := by
            intro next mem again
            rcases List.mem_cons.mp again with same | before
            · exact other (same ▸ List.mem_map_of_mem mem)
            · exact freshTail next mem before
          exact ih tail distinctTail unseen more later fuel (read.1 value)

/-- An object with members of different fields that is cut off anywhere. -/
theorem Record.read_cut {record : Record α} {entries : List (String × Form)}
    (known : ∀ entry ∈ entries, ∃ field, record.fields.find? (·.key == entry.1) = some field ∧
      field.read.NeedsAll entry.2)
    (distinct : (entries.map Prod.fst).Nodup) {input : Octets}
    (written : Form.object (entries.map fun entry => (.string entry.1, entry.2)) text)
    (cut : Cut part text) (start : afterBlanks input = part) : Ended (record.read input) := by
  obtain ⟨series, blank⟩ := written
  rw [List.map_map] at series
  rcases cut.cons with rfl | ⟨tail, rfl, inside⟩
  · exact ⟨.value, by rw [Record.read, start]⟩
  · have ended := record.members_cut known distinct (fun _ _ => List.not_mem_nil) series blank inside
      (tail.length + 1) record.blank
    rwa [Record.read, start]

/-! ## Alternatives -/

/-- An alternative that is cut off. Its name counts only when it is whole, so no name that is a part of
another one is found. -/
theorem tagged_cut {variants : List (Variant α)} {name : String} {variant : Variant α} {form : Form}
    (known : variants.find? (·.name == name) = some variant) (needs : variant.read.NeedsAll form)
    {input : Octets} (written : Form.object [(.string name, form)] text) (cut : Cut part text)
    (start : afterBlanks input = part) : Ended (tagged variants input) := by
  obtain ⟨series, blank⟩ := written
  rcases cut.cons with rfl | ⟨tail, rfl, inside⟩
  · exact ⟨.value, by rw [tagged, start]⟩
  · cases series with
    | cons lead written more =>
      cases more
      cases lead with
      | first before =>
        simp only [List.append_assoc, List.nil_append] at inside
        rcases inside.behind with early | ⟨c, key, rfl, inner⟩
        · exact ⟨_, tagged_blank (before.start early) start⟩
        · obtain rfl := inner.quote written
          have ends : Ends (_ ++ [Octet.closeBrace]) := .append blank (ends_cons (by decide))
          rw [tagged_key start (afterBlanks_append_cons (c := Octet.quote) before rfl)]
          refine (needs.member_cut written ends (by simp) inner).bind ?_
          rintro ⟨_, behind⟩ ⟨rfl, mark⟩
          simp only [Variant.named, known]
          refine mark.bind fun content value => value.bind fun read later => ?_
          have none := afterBlanks_eq_nil (blank.start later.before)
          exact ⟨.object, by simp only [none]⟩

theorem tagged_needsAll {variants : List (Variant α)} {name : String} {variant : Variant α}
    {form : Form} {value : α} (known : variants.find? (·.name == name) = some variant)
    (reads : variant.read.Reads form value) (needs : variant.read.NeedsAll form) :
    (tagged variants).NeedsAll (.object [(.string name, form)]) where
  takes written := ⟨value, (tagged_reads known reads).takes written⟩
  runsOut written cut start := .inl (tagged_cut known needs written cut start)

end AllPairs.Json
