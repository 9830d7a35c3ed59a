import AllPairs.Proofs.Json.Pretty
import AllPairs.Proofs.Json.StringTexts

/-!
# Laid out values and the grammar

What is written with one item or member on each line is one of the texts that a value has.
-/

namespace AllPairs.Json

variable {β : Type}

/-- The laid out value is of the form at every depth. -/
def Layout.Fits (layout : Layout) (form : Form) : Prop :=
  ∀ depth, form (octets (layout depth))

theorem natural_fits (n : Nat) : (Layout.natural n).Fits (.natural n) :=
  fun _ => rfl

theorem series_spread {form : β → Form} {text : β → Octets} {values : List β} {gap : Octets}
    (written : ∀ value ∈ values, form value (text value)) (blank : Blank gap) (first : Bool)
    (closing : Octets) :
    ∃ inner, Series first (values.map form) inner ∧
      spread gap first (values.map text) closing = inner ++ closing := by
  induction values generalizing first with
  | nil => exact ⟨[], .nil, rfl⟩
  | cons value values ih =>
    obtain ⟨head, tail⟩ := List.forall_mem_cons.mp written
    obtain ⟨inner, series, shape⟩ := ih tail false
    refine ⟨_, .cons (lead_gap blank) head series, ?_⟩
    simp only [List.map_cons, spread, shape, List.append_assoc]

theorem list_fits {layout : β → Layout} {form : β → Form} {values : List β}
    (fits : ∀ value ∈ values, (layout value).Fits (form value)) :
    (Layout.list (values.map layout)).Fits (.array (values.map form)) := by
  intro depth
  obtain ⟨gap, last, blank, trail, shape⟩ := octets_enclosed "[" "]" (values.map layout) depth
  rw [List.map_map] at shape
  obtain ⟨inner, series, spread⟩ := series_spread (fun value mem => fits value mem (depth + 1)) blank
    true (last ++ octets "]")
  rw [Layout.list, shape, Function.comp_def, spread]
  exact .intro series trail

theorem member_fits {layout : Layout} {form : Form} (fits : layout.Fits form) (name : String) :
    (Layout.member name layout).Fits (.member (.string name) form) := by
  intro depth
  rw [octets_member]
  exact .intro (string_spelling name) blank_nil blank_space (fits depth)

theorem object_fits (entries : List (String × Layout × Form))
    (fits : ∀ entry ∈ entries, entry.2.1.Fits entry.2.2) :
    (Layout.object (entries.map fun entry => (entry.1, entry.2.1))).Fits
      (.object (entries.map fun entry => (.string entry.1, entry.2.2))) := by
  intro depth
  have members : ∀ entry ∈ entries, Form.member (.string entry.1) entry.2.2
      (octets (Layout.member entry.1 entry.2.1 (depth + 1))) :=
    fun entry mem => member_fits (fits entry mem) entry.1 (depth + 1)
  obtain ⟨gap, last, blank, trail, shape⟩ := octets_enclosed "\x7b" "\x7d"
    (entries.map fun entry => Layout.member entry.1 entry.2.1) depth
  obtain ⟨inner, series, spread⟩ := series_spread members blank true (last ++ octets "\x7d")
  rw [List.map_map] at shape
  rw [Layout.object, List.map_map, Function.comp_def, shape, Function.comp_def, spread]
  refine .intro ?_ trail
  rwa [List.map_map]

end AllPairs.Json
