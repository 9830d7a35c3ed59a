import AllPairs.Proofs.Json.Pretty
import AllPairs.Proofs.Json.Steady

/-!
# Binary numbers as written and read

The text of a finite binary number has no blanks. So if reading that text by itself gives the number back,
then it is read back inside a larger text as well. Which numbers have that property depends on the
arithmetic of the reader; it can be tested for every single one.
-/

namespace AllPairs

open Json

namespace Decimal

/-! ## Texts without blanks -/

/-- The character stands for itself as an octet, which is visible. -/
def Solid (c : Char) : Prop := 0x20 < c.toNat ∧ c.toNat ≤ 127

instance (c : Char) : Decidable (Solid c) := inferInstanceAs (Decidable (_ ∧ _))

theorem solid_of_mem_digitsOf {n : Nat} : ∀ c ∈ digitsOf n, Solid c := by
  intro c hc
  have := toNat_of_mem_toDigits hc
  exact ⟨by omega, by omega⟩

theorem solid_of_mem_zeros {count : Nat} : ∀ c ∈ zeros count, Solid c := by
  intro c hc
  rw [List.eq_of_mem_replicate hc]
  decide

theorem solid_of_mem_positional {digits : List Char} {point : Int} (solid : ∀ c ∈ digits, Solid c) :
    ∀ c ∈ positional digits point, Solid c := by
  have mark : Solid '.' ∧ Solid '0' := by decide
  intro c hc
  unfold positional at hc
  split at hc
  · simp only [List.cons_append, List.mem_cons, List.mem_append] at hc
    grind [solid_of_mem_zeros]
  · simp only at hc
    split at hc
    · simp only [List.mem_cons, List.mem_append] at hc
      grind [solid_of_mem_zeros]
    · rcases List.mem_append.mp hc with taken | dropped
      · exact solid c (List.mem_of_mem_take taken)
      · rcases List.mem_cons.mp dropped with rfl | dropped
        · exact mark.1
        · exact solid c (List.mem_of_mem_drop dropped)

theorem solid_of_mem_scientific {digits : List Char} {exponent : Int}
    (solid : ∀ c ∈ digits, Solid c) : ∀ c ∈ scientific plain digits exponent, Solid c := by
  have mark : Solid '.' ∧ Solid 'e' ∧ Solid '-' ∧ Solid '+' := by decide
  intro c hc
  simp only [scientific, plain, List.mem_cons, List.mem_append] at hc
  grind [solid_of_mem_digitsOf]

theorem solid_of_mem_write {x : Scaled} : ∀ c ∈ x.write plain, Solid c := by
  intro c hc
  unfold Scaled.write at hc
  split at hc
  · have mark : Solid '0' ∧ Solid '.' := by decide
    have all : ∀ c ∈ ['0', '.', '0'], Solid c := by
      simp only [List.forall_mem_cons]
      exact ⟨mark.1, mark.2, mark.1, nofun⟩
    exact all c hc
  · simp only at hc
    split at hc
    · exact solid_of_mem_positional solid_of_mem_digitsOf c hc
    · exact solid_of_mem_scientific solid_of_mem_digitsOf c hc

theorem Solid.isBlank {c : Char} (solid : Solid c) : Octet.isBlank (UInt8.ofNat c.toNat) = false := by
  have code : (UInt8.ofNat c.toNat).toNat = c.toNat :=
    UInt8.toNat_ofNat_of_lt' (Nat.lt_of_le_of_lt solid.2 (by decide))
  have high : 0x20 < (UInt8.ofNat c.toNat).toNat := by
    rw [code]
    exact solid.1
  cases blank : Octet.isBlank (UInt8.ofNat c.toNat) with
  | false => rfl
  | true =>
    simp only [Octet.isBlank, Bool.or_eq_true, beq_iff_eq] at blank
    obtain ((same | same) | same) | same := blank <;> rw [same] at high <;>
      exact absurd high (by decide)

theorem isBlank_of_shortestText? {x : Float} {text : String} (written : shortestText? x = some text) :
    ∀ c ∈ octets text, Octet.isBlank c = false := by
  obtain ⟨value, -, rfl⟩ := Option.map_eq_some_iff.mp written
  have solid : ∀ c ∈ (if value.negative then '-' :: value.shortest.write plain
      else value.shortest.write plain), Solid c := by
    split
    · exact List.forall_mem_cons.mpr ⟨by decide, solid_of_mem_write⟩
    · exact solid_of_mem_write
  rw [signed, octets_ofList_of_le fun c hc => (solid c hc).2, List.forall_mem_map]
  exact fun c hc => (solid c hc).isBlank

/-! ## Numbers that are read back -/

/-- The number is finite, and its text, read as a number, gives it back. -/
def ReadsBack (x : Float) : Prop :=
  ∃ text, shortestText? x = some text ∧ document float (octets text) = .ok x

instance (x : Float) : Decidable (ReadsBack x) :=
  let reread (text : String) : Bool := (document float (octets text)).toOption = some x
  decidable_of_iff ((shortestText? x).any reread) <| by
    have same (outcome : Except Fault Float) : outcome.toOption = some x ↔ outcome = .ok x := by
      cases outcome <;> simp [Except.toOption]
    simp [ReadsBack, Option.any_eq_true, reread, same]

end Decimal

namespace Json

theorem legible_float {x : Float} (back : Decimal.ReadsBack x) : Legible float (.float x) x := by
  intro depth
  obtain ⟨text, written, read⟩ := back
  obtain ⟨rest, read, trail⟩ := document_eq_ok.mp read
  have shape : Layout.float x depth = text := by
    rw [Layout.float, Layout.atom, written, Option.getD_some]
  cases scan : anyNumber "f64" (octets text) with
  | error => simp [float, Reader.map, scan, Except.map] at read
  | ok found =>
    simp only [float, Reader.map, scan, Except.map, Except.ok.injEq, Prod.mk.injEq] at read
    obtain ⟨rfl, rfl⟩ := read
    rw [shape]
    exact (anyNumber_takes (Decimal.isBlank_of_shortestText? written) scan trail).map _

end Json
end AllPairs
