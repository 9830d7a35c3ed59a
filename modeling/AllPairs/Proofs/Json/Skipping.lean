import AllPairs.Proofs.Json.Steady
import AllPairs.Proofs.Json.StringTexts

/-!
# Passing over values

What is passed over is one value of the grammar, whatever it is: numbers of any size, strings with
brackets and quotes in them, and lists and objects of any depth. The statement is about a stack of goals,
of which the first one is met by the text, so that one induction over the grammar covers values and the
parts of lists and objects alike.
-/

namespace AllPairs.Json

variable {gap text rest : Octets} {cut : Fault} {goals : List Goal}

/-! ## Numbers -/

theorem DigitsText.digits? (digits : DigitsText text) (noDigit : NoDigit rest) :
    digits? cut (text ++ rest) = .ok (text.map Octet.digitValue, rest) :=
  digits?_append digits.1 digits.2 noDigit

theorem DigitsText.exists_cons (digits : DigitsText text) :
    ∃ c tail, text = c :: tail ∧ Octet.isDigit c := by
  obtain ⟨c, tail, rfl⟩ := List.exists_cons_of_ne_nil digits.1
  exact ⟨c, tail, rfl, digits.2 c (List.mem_cons_self ..)⟩

/-- What may stand behind the whole digits of a number stops them. -/
theorem ExponentText.noDigit (exponent : ExponentText text) (ends : Ends rest) :
    NoDigit (text ++ rest) ∧ (text ++ rest).head? ≠ some Octet.point := by
  cases exponent with
  | absent => exact ⟨ends.noDigit, fun point => ends Octet.point point (.inr (.inl rfl))⟩
  | present letter _ _ =>
    obtain rfl | rfl := letter
    · exact ⟨by simp [NoDigit]; decide, by simp; decide⟩
    · exact ⟨by simp [NoDigit]; decide, by simp; decide⟩

theorem FractionText.noDigit (fraction : FractionText text) (noDigit : NoDigit rest) :
    NoDigit (text ++ rest) := by
  cases fraction with
  | absent => exact noDigit
  | present _ =>
    simp [NoDigit]
    decide

theorem FractionText.fractionDigits (fraction : FractionText text) (noDigit : NoDigit rest)
    (noPoint : rest.head? ≠ some Octet.point) (cut : Fault) :
    ∃ found, fractionDigits cut (text ++ rest) = .ok (found, rest) := by
  cases fraction with
  | absent =>
    refine ⟨none, ?_⟩
    unfold Json.fractionDigits
    split
    next point => exact absurd (congrArg List.head? point) noPoint
    next => rfl
  | @present digits isDigits =>
    refine ⟨some (digits.map Octet.digitValue), ?_⟩
    exact congrArg (Except.map _) (isDigits.digits? noDigit)

theorem ExponentText.exponentPart (exponent : ExponentText text) (ends : Ends rest) (cut : Fault) :
    ∃ found, exponentPart cut (text ++ rest) = .ok (found, rest) := by
  cases exponent with
  | absent =>
    refine ⟨none, ?_⟩
    cases rest with
    | nil => rfl
    | cons c rest => exact if_neg fun letter => ends c rfl (.inr (.inr letter))
  | @present letter sign digits isLetter isSign isDigits =>
    have scan : digits? cut (digits ++ rest) = .ok (digits.map Octet.digitValue, rest) :=
      isDigits.digits? ends.noDigit
    obtain ⟨exponent, read⟩ : ∃ exponent, exponentDigits cut (sign ++ digits ++ rest) =
        .ok (exponent, rest) := by
      obtain rfl | rfl | rfl := isSign
      · obtain ⟨c, tail, rfl, digit⟩ := isDigits.exists_cons
        refine ⟨Int.ofNat (Decimal.ofDigits ((c :: tail).map Octet.digitValue)), ?_⟩
        unfold exponentDigits
        split
        next minus =>
          obtain ⟨rfl, -⟩ := List.cons.inj minus
          exact absurd digit (by decide)
        next plus =>
          obtain ⟨rfl, -⟩ := List.cons.inj plus
          exact absurd digit (by decide)
        next =>
          rw [List.nil_append, scan]
          rfl
      · exact ⟨_, congrArg (Except.map _) scan⟩
      · exact ⟨_, congrArg (Except.map _) scan⟩
    refine ⟨some exponent, ?_⟩
    rw [List.cons_append, Json.exponentPart, if_pos isLetter, read]
    rfl

/-- A number of the grammar is read up to its end. -/
theorem NumberText.numeral (number : NumberText text) (ends : Ends rest) (cut : Fault) :
    ∃ found, numeral cut (text ++ rest) = .ok (found, rest) := by
  cases number with
  | @intro sign whole fraction exponent isSign isWhole isFraction isExponent =>
    obtain ⟨noDigit, noPoint⟩ := isExponent.noDigit ends
    have scanWhole : wholeDigits cut _ = _ := isWhole.wholeDigits_append (isFraction.noDigit noDigit)
    obtain ⟨_, scanFraction⟩ := isFraction.fractionDigits noDigit noPoint cut
    obtain ⟨_, scanExponent⟩ := isExponent.exponentPart ends cut
    have unsigned (negative : Bool) : unsignedNumeral cut negative _ = _ :=
      unsignedNumeral_eq_ok.mpr ⟨_, _, _, _, _, scanWhole, scanFraction, scanExponent, rfl⟩
    simp only [List.append_assoc]
    obtain rfl | rfl := isSign
    · refine ⟨_, Eq.trans ?_ (unsigned false)⟩
      rw [List.nil_append, Json.numeral]
      · rintro behind minus
        obtain ⟨c, tail, rfl, digit⟩ := isWhole.exists_cons
        obtain ⟨rfl, -⟩ := List.cons.inj minus
        exact absurd digit (by decide)
    · exact ⟨_, unsigned true⟩

/-! ## Values without parts -/

theorem word_append (expected : Octets) : word expected (expected ++ rest) = .ok rest := by
  induction expected with
  | nil => rfl
  | cons e expected ih => exact (if_pos rfl).trans ih

/-- How a number starts. -/
theorem NumberText.exists_cons (number : NumberText text) :
    ∃ c tail, text = c :: tail ∧ StartsNumber c := by
  cases number with
  | intro isSign isWhole _ _ =>
    obtain ⟨c, tail, rfl, digit⟩ := isWhole.exists_cons
    obtain rfl | rfl := isSign
    · exact ⟨c, _, rfl, .inr digit⟩
    · exact ⟨Octet.minus, _, rfl, .inl rfl⟩

theorem StartsNumber.ne {c d : UInt8} (starts : StartsNumber c) (other : ¬ StartsNumber d) : c ≠ d :=
  fun same => other (same ▸ starts)

theorem StartsNumber.wordTail? {c : UInt8} (starts : StartsNumber c) : wordTail? c = none := by
  unfold Json.wordTail?
  split
  · exact absurd starts (by decide)
  · exact absurd starts (by decide)
  · exact absurd starts (by decide)
  · rfl

theorem StartsNumber.isBlank {c : UInt8} (starts : StartsNumber c) : Octet.isBlank c = false := by
  cases blank : Octet.isBlank c with
  | false => rfl
  | true =>
    simp only [Octet.isBlank, Bool.or_eq_true, beq_iff_eq] at blank
    obtain ((rfl | rfl) | rfl) | rfl := blank <;> exact absurd starts (by decide)

/-- How a value without parts starts. -/
theorem ScalarText.exists_cons (scalar : ScalarText text) :
    ∃ c tail, text = c :: tail ∧ Octet.isBlank c = false ∧ c ≠ Octet.closeBracket ∧
      c ≠ Octet.openBracket ∧ c ≠ Octet.openBrace := by
  cases scalar with
  | @word name known =>
    have all : ∀ name ∈ ["null", "true", "false"], ∃ c tail, octets name = c :: tail ∧
        Octet.isBlank c = false ∧ c ≠ Octet.closeBracket ∧ c ≠ Octet.openBracket ∧
          c ≠ Octet.openBrace := by
      simp only [List.forall_mem_cons]
      exact ⟨⟨_, _, rfl, by decide⟩, ⟨_, _, rfl, by decide⟩, ⟨_, _, rfl, by decide⟩, nofun⟩
    exact all name known
  | number number =>
    obtain ⟨c, tail, rfl, starts⟩ := number.exists_cons
    exact ⟨c, tail, rfl, starts.isBlank, starts.ne (by decide), starts.ne (by decide),
      starts.ne (by decide)⟩
  | string _ => exact ⟨_, _, rfl, by decide⟩

theorem skipScalar_word {c : UInt8} {tail : Octets} (letters : wordTail? c = some tail) :
    (skipScalar (c :: (tail ++ rest))).map Subtype.val = .ok rest := by
  unfold skipScalar
  simp only [letters]
  split
  next scan =>
    rw [word_append] at scan
    cases scan
  next scan =>
    rw [word_append] at scan
    obtain rfl := Except.ok.inj scan
    rfl

theorem ScalarText.skipScalar (scalar : ScalarText text) (ends : Ends rest) :
    (skipScalar (text ++ rest)).map Subtype.val = .ok rest := by
  cases scalar with
  | @word name known =>
    have all : ∀ name ∈ ["null", "true", "false"],
        (Json.skipScalar (octets name ++ rest)).map Subtype.val = .ok rest := by
      simp only [List.forall_mem_cons]
      exact ⟨skipScalar_word rfl, skipScalar_word rfl, skipScalar_word rfl, nofun⟩
    exact all name known
  | number number =>
    obtain ⟨found, read⟩ := number.numeral ends (.malformed .badNumber)
    obtain ⟨c, tail, rfl, starts⟩ := number.exists_cons
    rw [List.cons_append] at read ⊢
    have noQuote : c ≠ Octet.quote := starts.ne (by decide)
    have number : c = Octet.minus ∨ Octet.isDigit c := starts
    unfold Json.skipScalar
    simp only [starts.wordTail?, if_neg noQuote, if_pos number]
    split
    next scan =>
      rw [read] at scan
      cases scan
    next scan =>
      rw [read] at scan
      obtain ⟨-, rfl⟩ := Prod.mk.inj (Except.ok.inj scan)
      rfl
  | @string text string =>
    have passed := string.skip rest
    have letters : wordTail? Octet.quote = none := rfl
    rw [List.cons_append]
    unfold Json.skipScalar
    simp only [letters, if_true]
    rw [← passed]
    cases skipText (text ++ rest) <;> rfl

/-! ## Keys -/

/-- A key and its colon are passed over. -/
theorem skipKey_append {key before : Octets} (blank : Blank gap) (string : AnyString key)
    (lead : Blank before) (rest : Octets) :
    (skipKey (gap ++ Octet.quote :: (key ++ (before ++ Octet.colon :: rest)))).map Subtype.val =
      .ok rest := by
  have passed := string.skip (before ++ Octet.colon :: rest)
  unfold skipKey
  split
  next start =>
    rw [afterBlanks_append_cons blank rfl] at start
    cases start
  next start =>
    rw [afterBlanks_append_cons blank rfl] at start
    obtain ⟨rfl, rfl⟩ := List.cons.inj start
    cases scan : skipText (key ++ (before ++ Octet.colon :: rest)) with
    | error =>
      rw [scan] at passed
      cases passed
    | ok left =>
      rw [scan] at passed
      have colon : afterBlanks left = Octet.colon :: rest := by
        rw [Except.ok.inj passed, afterBlanks_append_cons lead rfl]
      simp only [if_true, bind, Except.bind]
      split
      next follows =>
        rw [colon] at follows
        cases follows
      next follows =>
        rw [colon] at follows
        obtain ⟨rfl, rfl⟩ := List.cons.inj follows
        rfl

/-! ## Goals -/

/-- Passing over by the first octet that is not blank. -/
theorem skip_cons {input : Octets} {c : UInt8} {goal : Goal} (start : afterBlanks input = c :: rest) :
    skip (goal :: goals) input =
      match goal with
      | .value =>
        if c = Octet.openBracket then skip (.items :: goals) rest
        else if c = Octet.openBrace then skip (.members :: goals) rest
        else (skipScalar (c :: rest)).bind fun left => skip goals left
      | .items =>
        if c = Octet.closeBracket then skip goals rest
        else skip (.value :: .moreItems :: goals) (c :: rest)
      | .moreItems =>
        if c = Octet.comma then skip (.value :: .moreItems :: goals) rest
        else if c = Octet.closeBracket then skip goals rest
        else .error (.malformed .noCommaOrBracket)
      | .members =>
        if c = Octet.closeBrace then skip goals rest
        else (skipKey (c :: rest)).bind fun left => skip (.value :: .moreMembers :: goals) left
      | .moreMembers =>
        if c = Octet.comma then
          (skipKey rest).bind fun left => skip (.value :: .moreMembers :: goals) left
        else if c = Octet.closeBrace then skip goals rest
        else .error (.malformed .noCommaOrBrace) := by
  rw [skip.eq_def]
  simp only
  split
  next begins => cases start.symm.trans begins
  next begins =>
    obtain ⟨rfl, rfl⟩ := List.cons.inj (start.symm.trans begins)
    cases goal with
    | value => cases skipScalar (c :: rest) <;> rfl
    | items => rfl
    | moreItems => rfl
    | members => cases skipKey (c :: rest) <;> rfl
    | moreMembers => cases skipKey rest <;> rfl

/-- Going on with what is left after a part was passed over. -/
theorem bind_of_map_val {input left : Octets} {outcome : Except Fault (Rest input)}
    {next : Octets → Except Fault Octets} (passed : outcome.map Subtype.val = .ok left) :
    (outcome.bind fun left => next left) = next left := by
  cases outcome with
  | error => cases passed
  | ok found =>
    obtain rfl := Except.ok.inj passed
    rfl

theorem skip_append {c : UInt8} {goal : Goal} (blank : Blank gap) (shown : Octet.isBlank c = false) :
    skip (goal :: goals) (gap ++ c :: rest) = skip (goal :: goals) (c :: rest) :=
  (skip_cons (afterBlanks_append_cons blank shown)).trans (skip_cons (afterBlanks_cons shown)).symm

/-! ## The grammar -/

/-- What has to be brought for a part. -/
def Part.goal : Part → Goal
  | value => .value
  | items true => .items
  | items false => .moreItems
  | members true => .members
  | members false => .moreMembers

/-- What stands before an item is passed over, and the item is the next goal. -/
theorem skip_item {first : Bool} {c : UInt8} (lead : Lead first gap) (shown : Octet.isBlank c = false)
    (other : c ≠ Octet.closeBracket) :
    skip ((Part.items first).goal :: goals) (gap ++ c :: rest) =
      skip (.value :: .moreItems :: goals) (c :: rest) := by
  cases lead with
  | first blank => exact (skip_cons (afterBlanks_append_cons blank shown)).trans (if_neg other)
  | @later before after blank trail =>
    have start : afterBlanks (before ++ Octet.comma :: (after ++ c :: rest)) =
        Octet.comma :: (after ++ c :: rest) := afterBlanks_append_cons blank rfl
    rw [List.append_assoc, List.cons_append]
    exact (skip_cons start).trans (skip_append trail shown)

/-- What stands before a member is passed over with its key, and its value is the next goal. -/
theorem skip_member {first : Bool} {key before : Octets} (lead : Lead first gap)
    (string : AnyString key) (blank : Blank before) :
    skip ((Part.members first).goal :: goals)
        (gap ++ Octet.quote :: (key ++ (before ++ Octet.colon :: rest))) =
      skip (.value :: .moreMembers :: goals) rest := by
  cases lead with
  | first lead =>
    have passed := skipKey_append blank_nil string blank rest
    have start : afterBlanks (gap ++ Octet.quote :: (key ++ (before ++ Octet.colon :: rest))) =
        Octet.quote :: (key ++ (before ++ Octet.colon :: rest)) := afterBlanks_append_cons lead rfl
    exact (skip_cons start).trans (bind_of_map_val passed)
  | @later gap after lead trail =>
    have passed := skipKey_append trail string blank rest
    have start : afterBlanks (gap ++ Octet.comma ::
          (after ++ Octet.quote :: (key ++ (before ++ Octet.colon :: rest)))) =
        Octet.comma :: (after ++ Octet.quote :: (key ++ (before ++ Octet.colon :: rest))) :=
      afterBlanks_append_cons lead rfl
    rw [List.append_assoc, List.cons_append]
    exact (skip_cons start).trans (bind_of_map_val passed)

theorem skip_endItems {first : Bool} (blank : Blank gap) :
    skip ((Part.items first).goal :: goals) (gap ++ Octet.closeBracket :: rest) = skip goals rest := by
  have start : afterBlanks (gap ++ Octet.closeBracket :: rest) = Octet.closeBracket :: rest :=
    afterBlanks_append_cons blank rfl
  cases first with
  | true => exact skip_cons start
  | false => exact skip_cons start

theorem skip_endMembers {first : Bool} (blank : Blank gap) :
    skip ((Part.members first).goal :: goals) (gap ++ Octet.closeBrace :: rest) = skip goals rest := by
  have start : afterBlanks (gap ++ Octet.closeBrace :: rest) = Octet.closeBrace :: rest :=
    afterBlanks_append_cons blank rfl
  cases first with
  | true => exact skip_cons start
  | false => exact skip_cons start

namespace WellFormed

theorem visible (formed : WellFormed .value text) : Visible text := by
  cases formed with
  | scalar scalar =>
    obtain ⟨c, tail, rfl, shown, other, -⟩ := scalar.exists_cons
    exact ⟨c, tail, rfl, shown, other⟩
  | list _ => exact ⟨_, _, rfl, rfl, by decide⟩
  | object _ => exact ⟨_, _, rfl, rfl, by decide⟩

theorem ends_items (formed : WellFormed (.items false) text) : Ends (text ++ rest) := by
  cases formed with
  | endItems blank => exact blank.ends_close (by decide)
  | item lead _ _ => exact lead.ends

theorem ends_members (formed : WellFormed (.members false) text) : Ends (text ++ rest) := by
  cases formed with
  | endMembers blank => exact blank.ends_close (by decide)
  | member lead _ _ _ _ _ => exact lead.ends

/-- A part of the grammar meets its goal, and nothing behind it is passed over. -/
theorem skip {part : Part} (formed : WellFormed part text) (ends : Ends rest) :
    Json.skip (part.goal :: goals) (text ++ rest) = Json.skip goals rest := by
  induction formed generalizing goals rest with
  | scalar scalar =>
    have passed := scalar.skipScalar ends
    obtain ⟨c, tail, rfl, shown, -, noList, noObject⟩ := scalar.exists_cons
    exact (skip_cons (afterBlanks_cons shown)).trans
      ((if_neg noList).trans ((if_neg noObject).trans (bind_of_map_val passed)))
  | @list text _ ih =>
    have start : afterBlanks (Octet.openBracket :: (text ++ rest)) =
        Octet.openBracket :: (text ++ rest) := rfl
    exact (skip_cons start).trans (ih ends)
  | @object text _ ih =>
    have start : afterBlanks (Octet.openBrace :: (text ++ rest)) =
        Octet.openBrace :: (text ++ rest) := rfl
    exact (skip_cons start).trans (ih ends)
  | endItems blank =>
    rw [List.append_assoc]
    exact skip_endItems blank
  | @item first gap text more lead value items ihValue ihMore =>
    have one : Json.skip (.value :: .moreItems :: goals) (text ++ (more ++ rest)) =
        Json.skip (.moreItems :: goals) (more ++ rest) := ihValue items.ends_items
    have after := one.trans (ihMore ends)
    obtain ⟨c, tail, rfl, shown, other⟩ := value.visible
    simp only [List.append_assoc, List.cons_append] at after ⊢
    exact (skip_item lead shown other).trans after
  | endMembers blank =>
    rw [List.append_assoc]
    exact skip_endMembers blank
  | @member first gap key before behind text more lead string blank trail value members ihValue ihMore =>
    have one : Json.skip (.value :: .moreMembers :: goals) (text ++ (more ++ rest)) =
        Json.skip (.moreMembers :: goals) (more ++ rest) := ihValue members.ends_members
    have after := one.trans (ihMore ends)
    obtain ⟨c, tail, rfl, shown, -⟩ := value.visible
    simp only [List.append_assoc, List.cons_append] at after ⊢
    exact (skip_member lead string blank).trans ((skip_append trail shown).trans after)

/-- A value is passed over up to its end. -/
theorem skipValue (formed : WellFormed .value text) (blank : Blank gap) (ends : Ends rest) :
    skipValue (gap ++ (text ++ rest)) = .ok rest := by
  have passed : Json.skip [.value] (text ++ rest) = Json.skip [] rest := formed.skip ends
  obtain ⟨c, tail, rfl, shown, -⟩ := formed.visible
  rw [Json.skipValue, List.cons_append, skip_append blank shown, ← List.cons_append, passed, Json.skip]

end WellFormed
end AllPairs.Json
