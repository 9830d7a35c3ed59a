import AllPairs.Proofs.Json.Strings
import AllPairs.Proofs.Json.Takes

/-!
# Lists, records and alternatives

What the readers of composite values take. Blanks may stand before and behind every token; the texts of
the parts are whatever the readers of the parts take.
-/

namespace AllPairs.Json

variable {α : Type} {first : Bool} {gap text rest : Octets}

/-- What stands before an item or a member: blanks, and among them a comma unless it is the first. -/
inductive Lead : (first : Bool) → Octets → Prop
  | first {before : Octets} : Blank before → Lead true before
  | later {before after : Octets} : Blank before → Blank after →
    Lead false (before ++ Octet.comma :: after)

/-- The items of a list with its closing bracket. -/
inductive ItemsText (item : Reader α) : (first : Bool) → Octets → List α → Prop
  | close {first : Bool} {gap : Octets} : Blank gap →
    ItemsText item first (gap ++ [Octet.closeBracket]) []
  | item {first : Bool} {gap text more : Octets} {value : α} {values : List α} :
    Lead first gap → item.Takes text value → ItemsText item false more values →
    ItemsText item first (gap ++ (text ++ more)) (value :: values)

/-- The fields of a record by position with a closing bracket; reading them changes the first value
into the second one. -/
inductive FieldsText : List (Field α) → (index : Nat) → α → Octets → α → Prop
  | close {index : Nat} {value : α} {gap : Octets} : Blank gap →
    FieldsText [] index value (gap ++ [Octet.closeBracket]) value
  | field {field : Field α} {fields : List (Field α)} {index : Nat} {value result : α}
    {change : α → α} {gap text more : Octets} :
    Lead (index == 0) gap → field.read.Takes text change →
    FieldsText fields (index + 1) (change value) more result →
    FieldsText (field :: fields) index value (gap ++ (text ++ more)) result

/-- A key with the value of a member. -/
inductive MemberText (name : String) (reader : Reader α) : Octets → α → Prop
  | intro {key before after text : Octets} {value : α} :
    Spells key name → Blank before → Blank after → reader.Takes text value →
    MemberText name reader (Octet.quote :: (key ++ (before ++ Octet.colon :: (after ++ text)))) value

/-- The members of a record with its closing brace, behind members with the given keys; reading them
changes the first value into the second one. -/
inductive MembersText (record : Record α) :
    (seen : List String) → (first : Bool) → α → Octets → α → Prop
  | close {seen : List String} {first : Bool} {value result : α} {gap : Octets} : Blank gap →
    record.finish seen value = .ok result →
    MembersText record seen first value (gap ++ [Octet.closeBrace]) result
  | field {seen : List String} {first : Bool} {value result : α} {name : String} {field : Field α}
    {change : α → α} {gap text more : Octets} :
    Lead first gap → record.fields.find? (·.key == name) = some field → name ∉ seen →
    MemberText name field.read text change →
    MembersText record (name :: seen) false (change value) more result →
    MembersText record seen first value (gap ++ (text ++ more)) result

/-! ## Between parts -/

theorem Lead.ends (lead : Lead false gap) : Ends (gap ++ text ++ rest) := by
  cases lead with
  | later before _ =>
    simp only [List.append_assoc]
    exact .append before (ends_cons (by decide))

theorem Blank.ends_close {c : UInt8} (blank : Blank gap) (other : ¬ Prolongs c) :
    Ends (gap ++ [c] ++ rest) := by
  rw [List.append_assoc]
  exact .append blank (ends_cons other)

theorem nextItem_lead (lead : Lead first gap) (visible : Visible text) :
    nextItem first (gap ++ (text ++ rest)) = .ok (some (text ++ rest)) := by
  obtain ⟨c, tail, rfl, shown, other⟩ := visible
  cases lead with
  | first before =>
    simp only [nextItem, List.cons_append, afterBlanks_append_cons before shown, if_neg other, if_true]
  | later before after =>
    have comma : Octet.comma ≠ Octet.closeBracket := by decide
    simp only [nextItem, List.cons_append, List.append_assoc,
      afterBlanks_append_cons (c := Octet.comma) before rfl, afterBlanks_append_cons after shown,
      if_neg other, if_neg comma, if_true, Bool.false_eq_true, if_false]

theorem nextItem_close (blank : Blank gap) :
    nextItem first (gap ++ Octet.closeBracket :: rest) = .ok none := by
  simp only [nextItem, afterBlanks_append_cons (c := Octet.closeBracket) blank rfl, if_true]

theorem endList_close (blank : Blank gap) :
    endList (gap ++ Octet.closeBracket :: rest) = .ok rest := by
  simp only [endList, afterBlanks_append_cons (c := Octet.closeBracket) blank rfl, if_true]

theorem nextMember_lead (lead : Lead first gap) :
    nextMember first (gap ++ Octet.quote :: rest) = memberKey (Octet.quote :: rest) := by
  have brace : Octet.quote ≠ Octet.closeBrace := by decide
  cases lead with
  | first before =>
    simp only [nextMember, afterBlanks_append_cons (c := Octet.quote) before rfl, if_neg brace, if_true]
  | later before after =>
    have comma : Octet.comma ≠ Octet.closeBrace := by decide
    simp only [nextMember, List.cons_append, List.append_assoc,
      afterBlanks_append_cons (c := Octet.comma) before rfl,
      afterBlanks_append_cons (c := Octet.quote) after rfl, if_neg brace, if_neg comma, if_true,
      Bool.false_eq_true, if_false]

theorem nextMember_close (blank : Blank gap) :
    nextMember first (gap ++ Octet.closeBrace :: rest) = .ok (.close rest) := by
  simp only [nextMember, afterBlanks_append_cons (c := Octet.closeBrace) blank rfl, if_true]

theorem colon_append (blank : Blank gap) : colon (gap ++ Octet.colon :: rest) = .ok rest := by
  rw [colon, afterBlanks_append_cons blank rfl]
  rfl

theorem memberKey_quote :
    memberKey (Octet.quote :: rest) = (readText rest).map fun read => .key read.1 read.2 :=
  rfl

/-! ## Lists -/

namespace ItemsText

variable {item : Reader α} {values : List α}

theorem ends (texts : ItemsText item false text values) : Ends (text ++ rest) := by
  cases texts with
  | close blank => exact blank.ends_close (by decide)
  | item lead _ _ => exact lead.ends

/-- Every item takes an octet, so a bound on the octets is one on the items. -/
theorem reads (texts : ItemsText item first text values) {fuel : Nat} (enough : text.length ≤ fuel) :
    items item fuel first (text ++ rest) = .ok (values, rest) := by
  induction texts generalizing fuel with
  | close blank =>
    cases fuel with
    | zero => simp at enough
    | succ fuel =>
      simp [items, nextItem_close blank, endList_close blank, bind, Except.bind, pure, Except.pure]
  | @item first gap text more value values lead taken later ih =>
    have pos := taken.visible.length_pos
    simp only [List.length_append] at enough
    cases fuel with
    | zero => omega
    | succ fuel =>
      have ended : Ends (more ++ rest) := later.ends
      have one := taken.reads_append ended
      have others := @ih fuel (by omega)
      simp [items, nextItem_lead lead taken.visible, one, others, bind, Except.bind, pure, Except.pure]

end ItemsText

theorem list_takes {item : Reader α} {values : List α} (texts : ItemsText item true text values) :
    (list item).Takes (Octet.openBracket :: text) values where
  visible := ⟨_, _, rfl, rfl, by decide⟩
  reads {input rest} start _ := by
    rw [list, start]
    exact texts.reads (by simp; omega)

/-! ## Records -/

theorem FieldsText.ends {fields : List (Field α)} {index : Nat} {value result : α}
    (texts : FieldsText fields (index + 1) value text result) : Ends (text ++ rest) := by
  cases texts with
  | close blank => exact blank.ends_close (by decide)
  | field lead _ _ => exact lead.ends

theorem FieldsText.reads (record : Record α) {fields : List (Field α)} {index : Nat} {value result : α}
    (texts : FieldsText fields index value text result) :
    record.inOrder fields index value (text ++ rest) = .ok (result, rest) := by
  induction texts with
  | close blank =>
    simp [Record.inOrder, endList_close blank, bind, Except.bind, pure, Except.pure]
  | @field field fields index value result change gap text more lead taken later ih =>
    have ended : Ends (more ++ rest) := later.ends
    have one := taken.reads_append ended
    simp [Record.inOrder, nextItem_lead lead taken.visible, one, ih, bind, Except.bind]

/-- A member is read up to its end by its key, the colon and the reader of its value. -/
theorem MemberText.reads {name : String} {reader : Reader α} {value : α}
    (member : MemberText name reader text value) (ends : Ends rest) :
    ∃ key behind start, text ++ rest = Octet.quote :: key ∧ readText key = .ok (name, behind) ∧
      colon behind = .ok start ∧ reader start = .ok (value, rest) := by
  cases member with
  | @intro key before after text _ spells lead trail taken =>
    refine ⟨key ++ (before ++ Octet.colon :: (after ++ (text ++ rest))),
      before ++ Octet.colon :: (after ++ (text ++ rest)), after ++ (text ++ rest), by simp,
      spells _, colon_append lead, taken.reads_behind trail ends⟩

namespace Record

variable (record : Record α) {fuel : Nat} {seen : List String} {value : α} {name : String}

/-- What a record does with a member when its key has been read. -/
theorem members_key {key : Octets} (lead : Lead first gap) (spells : Spells key name) :
    record.members (fuel + 1) seen first value (gap ++ Octet.quote :: (key ++ rest)) =
      match record.fields.find? (·.key == name) with
      | some field =>
        if name ∈ seen then .error (.mismatch (.duplicateField name))
        else do
          let (change, rest) ← field.read (← colon rest)
          record.members fuel (name :: seen) false (change value) rest
      | none => (do record.members fuel seen false value (← skipValue (← colon rest))) := by
  rw [members, nextMember_lead lead, memberKey_quote, spells]
  rfl

theorem members_field {field : Field α} {change : α → α} (lead : Lead first gap)
    (known : record.fields.find? (·.key == name) = some field) (fresh : name ∉ seen)
    (member : MemberText name field.read text change) (ends : Ends rest) :
    record.members (fuel + 1) seen first value (gap ++ (text ++ rest)) =
      record.members fuel (name :: seen) false (change value) rest := by
  obtain ⟨spells, before, after, taken⟩ := member
  simp only [List.cons_append, List.append_assoc]
  rw [record.members_key lead spells, known]
  simp only [if_neg fresh, colon_append before, taken.reads_behind after ends, bind, Except.bind]

theorem members_close (blank : Blank gap) :
    record.members (fuel + 1) seen first value (gap ++ Octet.closeBrace :: rest) =
      (record.finish seen value).map fun result => (result, rest) := by
  rw [members, nextMember_close blank]
  cases record.finish seen value <;> rfl

/-- A key that is no text is a fault of the whole object. -/
theorem read_key_error {input key : Octets} {fault : Fault} (blank : Blank gap)
    (start : afterBlanks input = Octet.openBrace :: (gap ++ Octet.quote :: key))
    (refused : readText key = .error fault) : record.read input = .error fault := by
  have first (fuel : Nat) :
      record.members (fuel + 1) [] true record.blank (gap ++ Octet.quote :: key) = .error fault := by
    rw [members, nextMember_lead (.first blank), memberKey_quote, refused]
    rfl
  rw [read, start]
  exact first _

end Record

namespace MembersText

variable {record : Record α} {seen : List String} {value result : α}

theorem ends (texts : MembersText record seen false value text result) : Ends (text ++ rest) := by
  cases texts with
  | close blank _ => exact blank.ends_close (by decide)
  | field lead _ _ _ _ => exact lead.ends

theorem reads (texts : MembersText record seen first value text result) {fuel : Nat}
    (enough : text.length ≤ fuel) :
    record.members fuel seen first value (text ++ rest) = .ok (result, rest) := by
  induction texts generalizing fuel with
  | close blank finish =>
    cases fuel with
    | zero => simp at enough
    | succ fuel =>
      rw [List.append_assoc, List.singleton_append, record.members_close blank, finish]
      rfl
  | @field seen first value result name field change gap text more lead known fresh member later ih =>
    have pos : 0 < text.length := by
      cases member
      exact Nat.succ_pos _
    simp only [List.length_append] at enough
    cases fuel with
    | zero => omega
    | succ fuel =>
      rw [List.append_assoc, List.append_assoc, record.members_field lead known fresh member later.ends]
      exact ih (by omega)

end MembersText

theorem Record.read_takes {record : Record α} {value : α}
    (texts : MembersText record [] true record.blank text value) :
    record.read.Takes (Octet.openBrace :: text) value where
  visible := ⟨_, _, rfl, rfl, by decide⟩
  reads {input rest} start _ := by
    rw [Record.read, start]
    exact texts.reads (by simp; omega)

/-! ## Alternatives -/

theorem tagged_blank {variants : List (Variant α)} {input : Octets} (blank : Blank gap)
    (brace : afterBlanks input = Octet.openBrace :: gap) :
    tagged variants input = .error (.ended .object) := by
  unfold tagged
  rw [brace]
  split
  next none => cases none
  next quoted => exact absurd (List.cons.inj quoted).1 (by decide)
  next braced =>
    obtain ⟨-, rfl⟩ := List.cons.inj braced
    rw [afterBlanks_eq_nil blank]
  next other => exact absurd rfl (other _)

/-- What is done with an object of a single member from its key on. -/
theorem tagged_key {variants : List (Variant α)} {input inner key : Octets}
    (brace : afterBlanks input = Octet.openBrace :: inner)
    (quote : afterBlanks inner = Octet.quote :: key) :
    tagged variants input = (do
      let (name, rest) ← readText key
      let variant ← Variant.named variants name
      let (value, rest) ← variant.read (← colon rest)
      match afterBlanks rest with
      | [] => .error (.ended .object)
      | Octet.closeBrace :: rest => .ok (value, rest)
      | _ => .error (.malformed .noValue)) := by
  unfold tagged
  rw [brace]
  split
  next none => cases none
  next quoted => exact absurd (List.cons.inj quoted).1 (by decide)
  next braced =>
    obtain ⟨-, rfl⟩ := List.cons.inj braced
    rw [quote]
    split
    next none => cases none
    next quoted =>
      obtain ⟨-, rfl⟩ := List.cons.inj quoted
      rfl
    next closed => exact absurd (List.cons.inj closed).1 (by decide)
    next other _ => exact absurd rfl (other _)
  next other => exact absurd rfl (other _)

theorem tagged_takes {variants : List (Variant α)} {name : String} {variant : Variant α} {value : α}
    {before after : Octets} (lead : Blank before)
    (known : variants.find? (·.name == name) = some variant)
    (member : MemberText name variant.read text value) (trail : Blank after) :
    (tagged variants).Takes (Octet.openBrace :: (before ++ (text ++ (after ++ [Octet.closeBrace]))))
      value where
  visible := ⟨_, _, rfl, rfl, by decide⟩
  reads {input rest} start _ := by
    have ends : Ends (after ++ Octet.closeBrace :: rest) := .append trail (ends_cons (by decide))
    obtain ⟨key, behind, content, shape, spelt, colon, taken⟩ := member.reads ends
    have inside : afterBlanks (before ++ (text ++ (after ++ Octet.closeBrace :: rest))) =
        Octet.quote :: key := by
      rw [shape, afterBlanks_append_cons lead rfl]
    have outside : afterBlanks input =
        Octet.openBrace :: (before ++ (text ++ (after ++ Octet.closeBrace :: rest))) := by
      simp [start]
    have close : afterBlanks (after ++ Octet.closeBrace :: rest) = Octet.closeBrace :: rest :=
      afterBlanks_append_cons trail rfl
    rw [tagged_key outside inside]
    simp only [spelt, Variant.named, known, colon, taken, close, bind, Except.bind]
    rfl

theorem optional_takes_none (reader : Reader α) : (optional reader).Takes (octets "null") none where
  visible := ⟨_, _, rfl, rfl, by decide⟩
  reads {input rest} start _ := by
    rw [optional, start]
    rfl

theorem optional_takes_some {reader : Reader α} {value : α} (takes : reader.Takes text value)
    (other : text.head? ≠ some Octet.smallN) : (optional reader).Takes text (some value) where
  visible := takes.visible
  reads {input rest} start ends := by
    have same : afterBlanks (text ++ rest) = text ++ rest := takes.visible.afterBlanks_append
    obtain ⟨c, tail, rfl, -⟩ := takes.visible
    unfold optional
    rw [start]
    split
    next nulled => exact absurd (congrArg some (List.cons.inj nulled).1) other
    next => simp only [takes.reads same ends, Except.map]

end AllPairs.Json
