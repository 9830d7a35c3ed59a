import AllPairs.Proofs.Json.Takes

/-!
# Numbers and what follows them

A reader of numbers stops at the first octet that cannot belong to the number. So a number that was read
from a text is read in the same way when more follows, unless that prolongs the number.
-/

namespace AllPairs.Json

variable {α β : Type} {rest : Octets}

/-- What the reader leaves is an end of the input, and with more octets behind the input it reads the
same value, if these octets do not prolong a number. -/
structure Reader.Steady (reader : Reader α) : Prop where
  suffix {input left : Octets} {value : α} : reader input = .ok (value, left) → left <:+ input
  append {input left rest : Octets} {value : α} : reader input = .ok (value, left) → Ends rest →
    reader (input ++ rest) = .ok (value, left ++ rest)

namespace Reader.Steady

theorem map {reader : Reader α} (steady : reader.Steady) (f : α → β) : (reader.map f).Steady where
  suffix {input left value} read := by
    cases scan : reader input with
    | error => simp [Reader.map, scan, Except.map] at read
    | ok found =>
      simp only [Reader.map, scan, Except.map, Except.ok.injEq, Prod.mk.injEq] at read
      obtain ⟨-, rfl⟩ := read
      exact steady.suffix scan
  append {input left rest value} read ends := by
    cases scan : reader input with
    | error => simp [Reader.map, scan, Except.map] at read
    | ok found =>
      simp only [Reader.map, scan, Except.map, Except.ok.injEq, Prod.mk.injEq] at read
      obtain ⟨rfl, rfl⟩ := read
      simp only [Reader.map, steady.append scan ends, Except.map]

end Reader.Steady

/-! ## Parts of a number -/

theorem digits_append (noDigit : NoDigit rest) (input : Octets) :
    digits (input ++ rest) = ((digits input).1, (digits input).2 ++ rest) := by
  induction input with
  | nil =>
    cases rest with
    | nil => rfl
    | cons c rest =>
      have other := noDigit c rfl
      simp [digits, other]
  | cons c input ih =>
    by_cases digit : Octet.isDigit c
    · simp only [digits, Prod.mk.injEq] at ih
      simp [digits, digit, ih]
    · simp [digits, digit]

theorem digits?_steady (cut : Fault) : Reader.Steady (digits? cut) where
  suffix {input left values} read := by
    cases input with
    | nil => simp [digits?] at read
    | cons c input =>
      by_cases digit : Octet.isDigit c
      · simp only [digits?, digit, if_true, digits, Except.ok.injEq, Prod.mk.injEq] at read
        rw [← read.2]
        exact List.dropWhile_suffix _
      · simp [digits?, digit] at read
  append {input left rest values} read ends := by
    cases input with
    | nil => simp [digits?] at read
    | cons c input =>
      by_cases digit : Octet.isDigit c
      · simp only [digits?, digit, if_true, Except.ok.injEq] at read
        rw [List.cons_append, digits?, if_pos digit, ← List.cons_append, digits_append ends.noDigit, read]
      · simp [digits?, digit] at read

theorem wholeDigits_steady (cut : Fault) : Reader.Steady (wholeDigits cut) where
  suffix {input left values} read := by
    unfold wholeDigits at read
    split at read
    · split at read
      · cases read
      · obtain ⟨-, rfl⟩ := Prod.mk.inj (Except.ok.inj read)
        exact List.suffix_cons ..
    · exact (digits?_steady cut).suffix read
  append {input left rest values} read ends := by
    unfold wholeDigits at read
    split at read
    next c input =>
      split at read
      · cases read
      next other =>
        obtain ⟨rfl, rfl⟩ := Prod.mk.inj (Except.ok.inj read)
        exact if_neg other
    next several =>
      have more := (digits?_steady cut).append read ends
      unfold wholeDigits
      split
      next c tail shape =>
        -- The zero is all of the input, so what follows it is no digit.
        cases input with
        | nil => cases read
        | cons d input =>
          rw [List.cons_append, List.cons.injEq] at shape
          obtain ⟨rfl, behind⟩ := shape
          cases input with
          | cons e input => exact absurd rfl (several e input)
          | nil =>
            rw [List.nil_append] at behind
            subst behind
            obtain ⟨rfl, rfl⟩ := Prod.mk.inj (Except.ok.inj read)
            exact if_neg (ends.noDigit c rfl)
      next => exact more

theorem fractionDigits_steady (cut : Fault) : Reader.Steady (fractionDigits cut) where
  suffix {input left found} read := by
    unfold fractionDigits at read
    split at read
    · exact (((digits?_steady cut).map some).suffix read).trans (List.suffix_cons ..)
    · obtain ⟨-, rfl⟩ := Prod.mk.inj (Except.ok.inj read)
      exact List.suffix_refl _
  append {input left rest found} read ends := by
    unfold fractionDigits at read
    split at read
    next => exact ((digits?_steady cut).map some).append read ends
    next noPoint =>
      obtain ⟨rfl, rfl⟩ := Prod.mk.inj (Except.ok.inj read)
      unfold fractionDigits
      split
      next behind shape =>
        cases input with
        | nil =>
          rw [List.nil_append] at shape
          subst shape
          exact absurd (.inr (.inl rfl)) (ends Octet.point rfl)
        | cons c input =>
          obtain ⟨rfl, -⟩ := List.cons.inj shape
          exact absurd rfl (noPoint input)
      next => rfl

theorem exponentDigits_steady (cut : Fault) : Reader.Steady (exponentDigits cut) := by
  have above := (digits?_steady cut).map fun digits => Int.ofNat (Decimal.ofDigits digits)
  have below := (digits?_steady cut).map fun digits => -Int.ofNat (Decimal.ofDigits digits)
  constructor
  case suffix =>
    intro input left found read
    unfold exponentDigits at read
    split at read
    · exact (below.suffix read).trans (List.suffix_cons ..)
    · exact (above.suffix read).trans (List.suffix_cons ..)
    · exact above.suffix read
  case append =>
    intro input left rest found read ends
    unfold exponentDigits at read
    split at read
    next => exact below.append read ends
    next => exact above.append read ends
    next noMinus noPlus =>
      have more := above.append read ends
      cases input with
      | nil => cases read
      | cons c input =>
        unfold exponentDigits
        split
        next shape =>
          obtain ⟨rfl, -⟩ := List.cons.inj shape
          exact absurd rfl (noMinus input)
        next shape =>
          obtain ⟨rfl, -⟩ := List.cons.inj shape
          exact absurd rfl (noPlus input)
        next => exact more

theorem exponentPart_steady (cut : Fault) : Reader.Steady (exponentPart cut) where
  suffix {input left found} read := by
    cases input with
    | nil =>
      obtain ⟨-, rfl⟩ := Prod.mk.inj (Except.ok.inj read)
      exact List.suffix_refl _
    | cons c input =>
      simp only [exponentPart] at read
      split at read
      · exact (((exponentDigits_steady cut).map some).suffix read).trans (List.suffix_cons ..)
      · obtain ⟨-, rfl⟩ := Prod.mk.inj (Except.ok.inj read)
        exact List.suffix_refl _
  append {input left rest found} read ends := by
    cases input with
    | nil =>
      obtain ⟨rfl, rfl⟩ := Prod.mk.inj (Except.ok.inj read)
      cases rest with
      | nil => rfl
      | cons c rest => exact if_neg fun letter => ends c rfl (.inr (.inr letter))
    | cons c input =>
      simp only [List.cons_append, exponentPart] at read ⊢
      split at read
      next letter =>
        rw [if_pos letter]
        exact ((exponentDigits_steady cut).map some).append read ends
      next other =>
        obtain ⟨rfl, rfl⟩ := Prod.mk.inj (Except.ok.inj read)
        exact if_neg other

/-! ## Numbers -/

/-- The parts of a number without its sign, one behind the other. -/
theorem unsignedNumeral_eq_ok {cut : Fault} {negative : Bool} {input left : Octets}
    {found : Decimal.Numeral} :
    unsignedNumeral cut negative input = .ok (found, left) ↔
      ∃ whole fraction exponent afterWhole afterFraction,
        wholeDigits cut input = .ok (whole, afterWhole) ∧
        fractionDigits cut afterWhole = .ok (fraction, afterFraction) ∧
        exponentPart cut afterFraction = .ok (exponent, left) ∧
        found = ⟨negative, whole, fraction, exponent⟩ := by
  constructor
  · intro read
    simp only [unsignedNumeral, bind, Except.bind] at read
    split at read
    · cases read
    next whole scanWhole =>
      split at read
      · cases read
      next fraction scanFraction =>
        split at read
        · cases read
        next exponent scanExponent =>
          obtain ⟨rfl, rfl⟩ := Prod.mk.inj (Except.ok.inj read)
          exact ⟨_, _, _, _, _, scanWhole, scanFraction, scanExponent, rfl⟩
  · rintro ⟨whole, fraction, exponent, afterWhole, afterFraction, scanWhole, scanFraction,
      scanExponent, rfl⟩
    simp only [unsignedNumeral, bind, Except.bind, scanWhole, scanFraction, scanExponent, pure,
      Except.pure]

theorem unsignedNumeral_steady (cut : Fault) (negative : Bool) :
    Reader.Steady (unsignedNumeral cut negative) where
  suffix {input left found} read := by
    obtain ⟨_, _, _, _, _, whole, fraction, exponent, -⟩ := unsignedNumeral_eq_ok.mp read
    exact ((exponentPart_steady cut).suffix exponent).trans
      (((fractionDigits_steady cut).suffix fraction).trans ((wholeDigits_steady cut).suffix whole))
  append {input left rest found} read ends := by
    obtain ⟨_, _, _, _, _, whole, fraction, exponent, rfl⟩ := unsignedNumeral_eq_ok.mp read
    exact unsignedNumeral_eq_ok.mpr ⟨_, _, _, _, _, (wholeDigits_steady cut).append whole ends,
      (fractionDigits_steady cut).append fraction ends,
      (exponentPart_steady cut).append exponent ends, rfl⟩

theorem numeral_steady (cut : Fault) : Reader.Steady (numeral cut) where
  suffix {input left found} read := by
    unfold numeral at read
    split at read
    · exact ((unsignedNumeral_steady cut true).suffix read).trans (List.suffix_cons ..)
    · exact (unsignedNumeral_steady cut false).suffix read
  append {input left rest found} read ends := by
    unfold numeral at read
    split at read
    next => exact (unsignedNumeral_steady cut true).append read ends
    next noMinus =>
      have more := (unsignedNumeral_steady cut false).append read ends
      cases input with
      | nil => cases read
      | cons c input =>
        unfold numeral
        split
        next shape =>
          obtain ⟨rfl, -⟩ := List.cons.inj shape
          exact absurd rfl (noMinus input)
        next => exact more

theorem number_eq_ok {input left : Octets} {found : Decimal.Number} :
    number input = .ok (found, left) ↔
      ∃ numeral, Json.numeral (.ended .value) input = .ok (numeral, left) ∧
        numeral.toNumber? = some found := by
  constructor
  · intro read
    simp only [number, bind, Except.bind] at read
    split at read
    · cases read
    next scan =>
      split at read
      next known =>
        obtain ⟨rfl, rfl⟩ := Prod.mk.inj (Except.ok.inj read)
        exact ⟨_, scan, known⟩
      · cases read
  · rintro ⟨numeral, scan, known⟩
    simp only [number, bind, Except.bind, scan, known]

theorem number_steady : Reader.Steady number where
  suffix read := by
    obtain ⟨_, scan, -⟩ := number_eq_ok.mp read
    exact (numeral_steady _).suffix scan
  append read ends := by
    obtain ⟨_, scan, known⟩ := number_eq_ok.mp read
    exact number_eq_ok.mpr ⟨_, (numeral_steady _).append scan ends, known⟩

/-- A text without blanks that is read as a number when it stands alone is taken for that number
wherever it stands. -/
theorem anyNumber_takes {expected : String} {text left : Octets} {found : Decimal.Number}
    (solid : ∀ c ∈ text, Octet.isBlank c = false)
    (read : anyNumber expected text = .ok (found, left)) (trail : afterBlanks left = []) :
    (anyNumber expected).Takes text found := by
  cases text with
  | nil => cases read
  | cons c text =>
    have shown := solid c (List.mem_cons_self ..)
    simp only [anyNumber, afterBlanks_cons shown] at read
    split at read
    next starts =>
      obtain rfl : left = [] := by
        cases left with
        | nil => rfl
        | cons d left =>
          have inside : d ∈ c :: text := (number_steady.suffix read).subset (List.mem_cons_self ..)
          rw [afterBlanks_cons (solid d inside)] at trail
          cases trail
      constructor
      case visible =>
        refine ⟨c, text, rfl, shown, ?_⟩
        rintro rfl
        exact absurd starts (by decide)
      case reads =>
        intro input rest start ends
        rw [anyNumber, start]
        exact (if_pos starts).trans (number_steady.append read ends)
    next => 
      simp only [wrongType, bind, Except.bind] at read
      split at read <;> cases read

end AllPairs.Json
