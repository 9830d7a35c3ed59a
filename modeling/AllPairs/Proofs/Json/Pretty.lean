import AllPairs.Json.Layout
import AllPairs.Proofs.Json.Composite
import AllPairs.Proofs.Json.Numerals

/-!
# Laid out values

A layout puts line breaks and indentation between tokens only, so a reader that takes the parts of a
value takes the whole of it, at any depth.
-/

namespace AllPairs.Json

variable {α β : Type}

/-- The reader takes the laid out value at every depth. -/
def Legible (reader : Reader α) (layout : Layout) (value : α) : Prop :=
  ∀ depth, reader.Takes (octets (layout depth)) value

/-- Parts with a gap before each and a comma before every gap but the first, and what closes them. -/
def spread (gap : Octets) : (first : Bool) → (parts : List Octets) → (closing : Octets) → Octets
  | _, [], closing => closing
  | first, part :: parts, closing =>
    (if first then gap else Octet.comma :: gap) ++ (part ++ spread gap false parts closing)

theorem lead_gap {gap : Octets} {first : Bool} (blank : Blank gap) :
    Lead first (if first then gap else Octet.comma :: gap) := by
  cases first with
  | true => exact .first blank
  | false => exact .later blank_nil blank

/-! ## Octets of layouts -/

theorem blank_newLine (depth : Nat) : Blank (octets (newLine depth)) := by
  have blanks : octets (String.ofList (List.replicate (2 * depth) ' ')) =
      List.replicate (2 * depth) 0x20 := by
    rw [octets_ofList_of_le, List.map_replicate]
    · rfl
    · intro c hc
      rw [List.eq_of_mem_replicate hc]
      decide
  rw [newLine, octets_append, blanks]
  intro c hc
  rcases List.mem_append.mp hc with line | blank
  · obtain rfl := List.mem_singleton.mp line
    rfl
  · rw [List.eq_of_mem_replicate blank]
    rfl

/-- Parts between commas, each behind the same gap. -/
theorem octets_intercalate (gap : String) (text : β → String) (part : β) (parts : List β)
    (closing : Octets) :
    octets (String.intercalate "," ((part :: parts).map fun part => gap ++ text part)) ++ closing =
      spread (octets gap) true ((part :: parts).map fun part => octets (text part)) closing := by
  have comma : octets "," = [Octet.comma] := rfl
  induction parts generalizing part with
  | nil => simp [spread]
  | cons next parts ih =>
    have later := ih next
    simp only [List.map_cons, spread, if_true] at later ⊢
    rw [String.intercalate_cons_cons, octets_append, octets_append, octets_append, comma,
      List.append_assoc, List.append_assoc, List.append_assoc, later]
    simp

theorem octets_enclosed (opening closing : String) (parts : List Layout) (depth : Nat) :
    ∃ gap last, Blank gap ∧ Blank last ∧
      octets (Layout.enclosed opening closing parts depth) = octets opening ++
        spread gap true (parts.map fun part => octets (part (depth + 1))) (last ++ octets closing) := by
  cases parts with
  | nil => exact ⟨[], [], blank_nil, blank_nil, octets_append _ _⟩
  | cons part parts =>
    refine ⟨_, _, blank_newLine (depth + 1), blank_newLine depth, ?_⟩
    rw [Layout.enclosed, octets_append, octets_append, octets_append, List.append_assoc,
      List.append_assoc, octets_intercalate]
    nofun

theorem blank_space : Blank [0x20] := by
  simp [Blank, Octet.isBlank]

theorem octets_member (name : String) (layout : Layout) (depth : Nat) :
    octets (Layout.member name layout depth) = Octet.quote :: (spelling name ++
      ([] ++ Octet.colon :: ([0x20] ++ octets (layout depth)))) := by
  rw [Layout.member, octets_append, octets_append, octets_writeText]
  simp
  rfl

/-! ## Readers of layouts -/

namespace Legible

variable {reader : Reader α} {layout : Layout} {value : α}

theorem map (legible : Legible reader layout value) (f : α → β) :
    Legible (reader.map f) layout (f value) :=
  fun depth => (legible depth).map f

/-- The text of a value that stands alone is a document. -/
theorem document (legible : Legible reader layout value) :
    document reader (octets layout.render) = .ok value := by
  have whole := (legible 0).document blank_nil blank_nil
  rwa [List.nil_append, List.append_nil] at whole

end Legible

theorem legible_natural {n : Nat} (small : n < wordSize) : Legible natural (.natural n) n :=
  fun _ => naturalWith_takes small rfl

theorem legible_positive {n : Nat} (small : n < wordSize) (pos : 0 < n) :
    Legible positive (.natural n) n :=
  fun _ => naturalWith_takes small (decide_eq_true pos)

theorem legible_optional_positive {n : Nat} (small : n < wordSize) (pos : 0 < n) :
    Legible (optional positive) (.natural n) (some n) :=
  fun depth => optional_takes_some (legible_positive small pos depth)
    ((wholeNumeral_toString n).head?_ne (by decide))

theorem legible_null (reader : Reader α) : Legible (optional reader) (.atom "null") none :=
  fun _ => optional_takes_none reader

theorem legible_text (value : String) : Legible text (.text value) value := by
  intro depth
  rw [Layout.text, Layout.atom, octets_writeText]
  refine ⟨⟨_, _, rfl, rfl, by decide⟩, ?_⟩
  intro input rest start _
  rw [text, start]
  exact spells_spelling value rest

theorem itemsText_spread {item : Reader α} {text : α → Octets} {values : List α} {first : Bool}
    {gap last : Octets} (takes : ∀ value ∈ values, item.Takes (text value) value) (blank : Blank gap)
    (trail : Blank last) :
    ItemsText item first (spread gap first (values.map text) (last ++ [Octet.closeBracket]))
      values := by
  induction values generalizing first with
  | nil => exact .close trail
  | cons value values ih =>
    obtain ⟨head, tail⟩ := List.forall_mem_cons.mp takes
    exact .item (lead_gap blank) head (ih tail)

/-- A list of values that the reader of the items takes. -/
theorem legible_list {item : Reader α} {layout : α → Layout} {values : List α}
    (legible : ∀ value ∈ values, Legible item (layout value) value) :
    Legible (list item) (.list (values.map layout)) values := by
  intro depth
  obtain ⟨gap, last, blank, trail, shape⟩ := octets_enclosed "[" "]" (values.map layout) depth
  rw [List.map_map] at shape
  have texts : ItemsText item true _ values :=
    itemsText_spread (fun value mem => legible value mem (depth + 1)) blank trail
  rw [Layout.list, shape]
  exact list_takes texts

theorem memberText_member {name : String} {reader : Reader α} {layout : Layout} {value : α}
    {depth : Nat} (takes : reader.Takes (octets (layout depth)) value) :
    MemberText name reader (octets (Layout.member name layout depth)) value := by
  rw [octets_member]
  exact .intro (spells_spelling name) blank_nil blank_space takes

theorem legible_tagged {variants : List (Variant α)} {name : String} {variant : Variant α}
    {layout : Layout} {value : α} (known : variants.find? (·.name == name) = some variant)
    (legible : Legible variant.read layout value) :
    Legible (tagged variants) (.object [(name, layout)]) value := by
  intro depth
  obtain ⟨gap, last, blank, trail, shape⟩ :=
    octets_enclosed "\x7b" "\x7d" [Layout.member name layout] depth
  rw [Layout.object]
  simp only [List.map_cons, List.map_nil]
  rw [shape]
  exact tagged_takes blank known (memberText_member (legible (depth + 1))) trail

/-- The members in the given order fill the record, behind members with the given keys: each is of a
field that is not filled yet and changes the value, at last into the second one. -/
inductive Fills (record : Record α) : (seen : List String) → α → List (String × Layout) → α → Prop
  | done {seen : List String} {value result : α} : record.finish seen value = .ok result →
    Fills record seen value [] result
  | field {seen : List String} {value result : α} {name : String} {field : Field α}
    {change : α → α} {layout : Layout} {members : List (String × Layout)} :
    record.fields.find? (·.key == name) = some field → name ∉ seen →
    Legible field.read layout change → Fills record (name :: seen) (change value) members result →
    Fills record seen value ((name, layout) :: members) result

theorem Fills.membersText {record : Record α} {seen : List String} {value result : α}
    {members : List (String × Layout)} (fills : Fills record seen value members result)
    {first : Bool} {gap last : Octets} {depth : Nat} (blank : Blank gap) (trail : Blank last) :
    MembersText record seen first value
      (spread gap first (members.map fun entry => octets (Layout.member entry.1 entry.2 depth))
        (last ++ [Octet.closeBrace])) result := by
  induction fills generalizing first with
  | done finish => exact .close trail finish
  | field known fresh legible _ ih =>
    exact .field (lead_gap blank) known fresh (memberText_member (legible depth)) ih

theorem legible_record {record : Record α} {members : List (String × Layout)} {value : α}
    (fills : Fills record [] record.blank members value) :
    Legible record.read (.object members) value := by
  intro depth
  obtain ⟨gap, last, blank, trail, shape⟩ := octets_enclosed "\x7b" "\x7d"
    (members.map fun entry => Layout.member entry.1 entry.2) depth
  rw [List.map_map] at shape
  rw [Layout.object, shape]
  exact Record.read_takes (fills.membersText blank trail)

end AllPairs.Json
