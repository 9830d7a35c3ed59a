import AllPairs.Proofs.Json.Takes

/-!
# Natural numbers in decimal digits

The digits of a natural number are read back as that number. What has to be seen is that the digits have
no superfluous zero in front, and that reading stops behind them.
-/

namespace AllPairs.Json

open Decimal (ofDigits)

/-! ## Digits -/

theorem digits?_append {cut : Fault} {text rest : Octets} (nonempty : text ≠ [])
    (allDigits : ∀ c ∈ text, Octet.isDigit c) (noDigit : NoDigit rest) :
    digits? cut (text ++ rest) = .ok (text.map Octet.digitValue, rest) := by
  have stop : rest.takeWhile Octet.isDigit = [] ∧ rest.dropWhile Octet.isDigit = rest := by
    cases rest with
    | nil => simp
    | cons c rest =>
      have other := noDigit c rfl
      simp [other]
  have scan : digits (text ++ rest) = (text.map Octet.digitValue, rest) := by
    rw [digits, List.takeWhile_append_of_pos allDigits, List.dropWhile_append_of_pos allDigits, stop.1,
      stop.2, List.append_nil]
  obtain ⟨c, tail, rfl⟩ := List.exists_cons_of_ne_nil nonempty
  rw [← scan]
  exact if_pos (allDigits c (List.mem_cons_self ..))

/-! ## Whole numbers -/

/-- Digits of which the first one is zero only if it is the only one. -/
structure WholeNumeral (numeral : Octets) : Prop where
  nonempty : numeral ≠ []
  allDigits : ∀ c ∈ numeral, Octet.isDigit c
  lead : numeral.head? = some Octet.zero → numeral = [Octet.zero]

namespace WholeNumeral

variable {numeral rest : Octets} {cut : Fault}

theorem exists_cons (whole : WholeNumeral numeral) :
    ∃ c tail, numeral = c :: tail ∧ Octet.isDigit c := by
  obtain ⟨c, tail, rfl⟩ := List.exists_cons_of_ne_nil whole.nonempty
  exact ⟨c, tail, rfl, whole.allDigits c (List.mem_cons_self ..)⟩

theorem head?_ne (whole : WholeNumeral numeral) {c : UInt8} (other : ¬ Octet.isDigit c) :
    numeral.head? ≠ some c := by
  obtain ⟨d, tail, rfl, digit⟩ := whole.exists_cons
  intro same
  rw [List.head?_cons, Option.some.injEq] at same
  exact other (same ▸ digit)

theorem wholeDigits_append (whole : WholeNumeral numeral) (noDigit : NoDigit rest) :
    wholeDigits cut (numeral ++ rest) = .ok (numeral.map Octet.digitValue, rest) := by
  have scan : digits? cut (numeral ++ rest) = .ok (numeral.map Octet.digitValue, rest) :=
    digits?_append whole.nonempty whole.allDigits noDigit
  unfold wholeDigits
  split
  next c more shape =>
    -- An octet behind the zero is not of the numeral, so it is no digit.
    obtain ⟨d, tail, rfl, -⟩ := whole.exists_cons
    rw [List.cons_append, List.cons.injEq] at shape
    obtain ⟨rfl, shape⟩ := shape
    obtain rfl : tail = [] := (List.cons.inj (whole.lead rfl)).2
    rw [List.nil_append] at shape
    subst shape
    exact if_neg (noDigit c rfl)
  next => exact scan

/-- The numeral stands for a natural number: no point and no exponent follows. -/
theorem numeral_append (whole : WholeNumeral numeral) (ends : Ends rest) :
    Json.numeral cut (numeral ++ rest) =
      .ok (⟨false, numeral.map Octet.digitValue, none, none⟩, rest) := by
  have fraction : fractionDigits cut rest = .ok (none, rest) := by
    unfold fractionDigits
    split
    next => exact absurd (.inr (.inl rfl)) (ends _ rfl)
    next => rfl
  have exponent : exponentPart cut rest = .ok (none, rest) := by
    cases rest with
    | nil => rfl
    | cons c rest => exact if_neg fun letter => ends c rfl (.inr (.inr letter))
  have unsigned : unsignedNumeral cut false (numeral ++ rest) =
      .ok (⟨false, numeral.map Octet.digitValue, none, none⟩, rest) := by
    simp [unsignedNumeral, whole.wholeDigits_append ends.noDigit, fraction, exponent, bind, Except.bind,
      pure, Except.pure]
  unfold Json.numeral
  split
  next shape =>
    obtain ⟨c, tail, rfl, digit⟩ := whole.exists_cons
    obtain ⟨rfl, -⟩ := List.cons.inj shape
    exact absurd digit (by decide)
  next => exact unsigned

theorem number_append (whole : WholeNumeral numeral)
    (small : ofDigits (numeral.map Octet.digitValue) < wordSize) (ends : Ends rest) :
    number (numeral ++ rest) = .ok (.natural (ofDigits (numeral.map Octet.digitValue)), rest) := by
  simp [number, whole.numeral_append ends, Decimal.Numeral.toNumber?, small, bind, Except.bind]

theorem visible (whole : WholeNumeral numeral) : Visible numeral := by
  obtain ⟨c, tail, rfl, digit⟩ := whole.exists_cons
  refine ⟨c, tail, rfl, ?_, ?_⟩
  · cases blank : Octet.isBlank c with
    | false => rfl
    | true => exact absurd (.inl digit) (not_prolongs_of_isBlank blank)
  · rintro rfl
    exact absurd digit (by decide)

/-- A reader of natural numbers takes the numerals of those that it accepts. -/
theorem takes (whole : WholeNumeral numeral) {expected : String} {accepts : Nat → Bool}
    (small : ofDigits (numeral.map Octet.digitValue) < wordSize)
    (accepted : accepts (ofDigits (numeral.map Octet.digitValue))) :
    (naturalWith expected accepts).Takes numeral (ofDigits (numeral.map Octet.digitValue)) where
  visible := whole.visible
  reads {input rest} start ends := by
    have any : anyNumber expected input =
        .ok (.natural (ofDigits (numeral.map Octet.digitValue)), rest) := by
      rw [← whole.number_append small ends, anyNumber, start]
      obtain ⟨c, tail, rfl, digit⟩ := whole.exists_cons
      exact if_pos (.inr digit)
    simp [naturalWith, any, accepted, bind, Except.bind]

end WholeNumeral

/-! ## The digits of a number -/

variable {n : Nat}

theorem toNat_of_mem_toDigits {c : Char} (hc : c ∈ Nat.toDigits 10 n) :
    48 ≤ c.toNat ∧ c.toNat ≤ 57 := by
  have digit := Nat.isDigit_of_mem_toDigits (by decide) (by decide) hc
  simp only [Char.isDigit, Bool.and_eq_true, decide_eq_true_eq] at digit
  exact ⟨UInt32.le_iff_toNat_le.mp digit.1, UInt32.le_iff_toNat_le.mp digit.2⟩

theorem octets_toString (n : Nat) :
    octets (toString n) = (Nat.toDigits 10 n).map fun c => UInt8.ofNat c.toNat := by
  rw [Nat.toString_eq_ofList_toDigits]
  apply octets_ofList_of_le
  intro c hc
  have := toNat_of_mem_toDigits hc
  omega

theorem toNat_ofNat_of_mem_toDigits {c : Char} (hc : c ∈ Nat.toDigits 10 n) :
    (UInt8.ofNat c.toNat).toNat = c.toNat := by
  obtain ⟨-, high⟩ := toNat_of_mem_toDigits hc
  exact UInt8.toNat_ofNat_of_lt' (Nat.lt_of_le_of_lt high (by decide))

/-- The first digit of a positive number is not zero. -/
theorem toDigits_eq_cons (pos : 0 < n) :
    ∃ c tail, Nat.toDigits 10 n = c :: tail ∧ 48 < c.toNat := by
  induction n using Nat.strongRecOn with
  | ind n ih =>
    rw [Nat.toDigits_eq_if (by decide)]
    split
    next small =>
      refine ⟨_, _, rfl, ?_⟩
      rw [Nat.toNat_digitChar_of_lt_ten small]
      omega
    next large =>
      obtain ⟨c, tail, shape, first⟩ := ih (n / 10) (by omega) (by omega)
      exact ⟨c, tail ++ [(n % 10).digitChar], by rw [shape, List.cons_append], first⟩

theorem wholeNumeral_toString (n : Nat) : WholeNumeral (octets (toString n)) where
  nonempty := by
    rw [octets_toString, Ne, List.map_eq_nil_iff]
    exact Nat.toDigits_ne_nil
  allDigits := by
    rw [octets_toString, List.forall_mem_map]
    intro c hc
    obtain ⟨low, high⟩ := toNat_of_mem_toDigits hc
    simp [Octet.isDigit, UInt8.le_iff_toNat_le, toNat_ofNat_of_mem_toDigits hc, low, high]
  lead := by
    rcases Nat.eq_zero_or_pos n with rfl | pos
    · intro _
      rfl
    · intro zero
      obtain ⟨c, tail, shape, first⟩ := toDigits_eq_cons pos
      have code := toNat_ofNat_of_mem_toDigits (n := n) (c := c) (by simp [shape])
      rw [octets_toString, shape, List.map_cons, List.head?_cons, Option.some.injEq] at zero
      rw [zero] at code
      exact absurd code (Nat.ne_of_lt first)

theorem ofDigits_toString (n : Nat) :
    ofDigits ((octets (toString n)).map Octet.digitValue) = n := by
  have values : (octets (toString n)).map Octet.digitValue =
      (Nat.toDigits 10 n).map fun c => c.toNat - '0'.toNat := by
    rw [octets_toString, List.map_map]
    apply List.map_congr_left
    intro c hc
    simp [Octet.digitValue, toNat_ofNat_of_mem_toDigits hc]
  rw [values, ofDigits, List.foldl_map]
  exact Nat.ofDigitChars_ten_toDigits

/-! ## Readers of natural numbers -/

theorem naturalWith_takes {expected : String} {accepts : Nat → Bool} (small : n < wordSize)
    (accepted : accepts n) : (naturalWith expected accepts).Takes (octets (toString n)) n := by
  have takes := @WholeNumeral.takes _ (wholeNumeral_toString n) expected accepts
  rw [ofDigits_toString] at takes
  exact takes small accepted

end AllPairs.Json
