import AllPairs.Proofs.Json.Grammar
import AllPairs.Proofs.Json.Strings

/-!
# Strings in any spelling

A string is read as the characters that it is written for, however they are escaped. A string that is
passed over ends where the grammar says, also if its escapes are no characters.
-/

namespace AllPairs.Json

variable {rest : Octets}

/-! ## Escapes -/

theorem HexDigit.hexValue? {value : Nat} {c : UInt8} (digit : HexDigit value c) :
    Octet.hexValue? c = some value := by
  have upper : ∀ d < 16, Octet.hexValue? (UInt8.ofNat (Nat.digitChar d).toUpper.toNat) = some d := by
    decide
  obtain ⟨small, rfl | rfl⟩ := digit
  · exact hexValue?_digitChar small
  · exact upper value small

theorem UnitText.codeUnit {unit : Nat} {text : Octets} (digits : UnitText unit text)
    (rest : Octets) :
    ∃ shorter, codeUnit (text ++ rest) = .ok (unit, ⟨rest, shorter⟩) := by
  cases digits with
  | intro first second third fourth =>
    refine ⟨Nat.lt_of_lt_of_le (Nat.lt_succ_self _) (Nat.le_add_right _ 3), ?_⟩
    simp only [List.cons_append, List.nil_append, Json.codeUnit, first.hexValue?, second.hexValue?,
      third.hexValue?, fourth.hexValue?]

theorem simpleEscape?_of_mem {letter : UInt8} {c : Char} (known : (letter, c) ∈ shortEscapes) :
    simpleEscape? letter = some (UInt8.ofNat c.toNat) ∧ c.toNat ≤ 127 := by
  have all : ∀ entry ∈ shortEscapes,
      simpleEscape? entry.1 = some (UInt8.ofNat entry.2.toNat) ∧ entry.2.toNat ≤ 127 := by decide
  exact all _ known

theorem IsFirstHalf.not_second {unit : Nat} (isFirst : IsFirstHalf unit) : ¬ IsSecondHalf unit :=
  fun isSecond => Nat.lt_irrefl _ (Nat.lt_of_lt_of_le isFirst.2 isSecond.1)

/-- The code of a character is no half of one. -/
theorem not_isHalf (c : Char) : ¬ IsFirstHalf c.toNat ∧ ¬ IsSecondHalf c.toNat := by
  have valid : c.toNat < 0xd800 ∨ 0xdfff < c.toNat ∧ c.toNat < 0x110000 := c.valid
  simp only [IsFirstHalf, IsSecondHalf]
  omega

/-- Behind the first half of a character the second one has to follow in an escape of its own. -/
theorem unicodeEscape_half {high : Nat} {first : Octets} (isFirst : IsFirstHalf high)
    (highText : UnitText high first) (more : Octets) :
    ∃ within, unicodeEscape (first ++ Octet.backslash :: Octet.smallU :: more) =
      (codeUnit more).bind fun low =>
        if IsSecondHalf low.1 then
          .ok (codePoint (0x10000 + (high - 0xd800) * 0x400 + (low.1 - 0xdc00)), low.2.within within)
        else .error (.malformed .wrongHalf) := by
  obtain ⟨shorter, read⟩ := highText.codeUnit (Octet.backslash :: Octet.smallU :: more)
  refine ⟨Nat.le_trans (Nat.le_add_right _ 2) (Nat.le_of_lt shorter), ?_⟩
  rw [unicodeEscape, read]
  exact (if_neg isFirst.not_second).trans (if_pos isFirst)

theorem unicodeEscape_pair {high low : Nat} {first second : Octets} (isFirst : IsFirstHalf high)
    (isSecond : IsSecondHalf low) (highText : UnitText high first) (lowText : UnitText low second)
    (rest : Octets) :
    ∃ shorter, unicodeEscape (first ++ Octet.backslash :: Octet.smallU :: (second ++ rest)) =
      .ok (codePoint (0x10000 + (high - 0xd800) * 0x400 + (low - 0xdc00)), ⟨rest, shorter⟩) := by
  obtain ⟨within, escape⟩ := unicodeEscape_half isFirst highText (second ++ rest)
  obtain ⟨shorter, read⟩ := lowText.codeUnit rest
  refine ⟨Nat.lt_of_lt_of_le shorter within, ?_⟩
  rw [escape, read]
  exact if_pos isSecond

theorem textContent_escape_error {input : Octets} {fault : Fault}
    (refused : unicodeEscape input = .error fault) :
    textContent (Octet.backslash :: Octet.smallU :: input) = .error fault := by
  have sequence : escapeSequence (Octet.smallU :: input) = .error fault := by
    have letter : simpleEscape? Octet.smallU = none := rfl
    simp only [escapeSequence, letter, refused, if_true]
    rfl
  rw [textContent]
  simp only [sequence, if_true]
  rfl

/-- A string that closes behind the first half of a character is no text. -/
theorem readText_half {unit : Nat} {text : Octets} (isFirst : IsFirstHalf unit)
    (digits : UnitText unit text) :
    readText (Octet.backslash :: Octet.smallU :: (text ++ Octet.quote :: rest)) =
      .error (.malformed .halfCharacter) := by
  obtain ⟨_, read⟩ := digits.codeUnit (Octet.quote :: rest)
  have escape : unicodeEscape (text ++ Octet.quote :: rest) = .error (.malformed .halfCharacter) := by
    rw [unicodeEscape, read]
    exact (if_neg isFirst.not_second).trans (if_pos isFirst)
  rw [readText, textContent_escape_error escape]
  rfl

theorem textContent_charText {c : Char} {text : Octets} (char : CharText c text) :
    textContent (text ++ rest) =
      (textContent rest).map fun read => (String.utf8EncodeChar c ++ read.1, read.2) := by
  cases char with
  | plain unescaped =>
    exact textContent_plain (plain_utf8EncodeChar unescaped.1 unescaped.2.1 unescaped.2.2)
  | short known =>
    obtain ⟨escape, small⟩ := simpleEscape?_of_mem known
    rw [utf8EncodeChar_of_le small]
    exact textContent_simpleEscape escape
  | unit digits =>
    obtain ⟨_, unit⟩ := digits.codeUnit rest
    have escape := unicodeEscape_unit unit (not_isHalf c).1 (not_isHalf c).2
    rw [codePoint, Char.ofNat_toNat] at escape
    exact textContent_unicode escape
  | pair isFirst isSecond code highText lowText =>
    obtain ⟨_, escape⟩ := unicodeEscape_pair isFirst isSecond highText lowText rest
    rw [← code, codePoint, Char.ofNat_toNat] at escape
    simp only [List.cons_append, List.append_assoc]
    exact textContent_unicode escape

theorem StringText.content {cs : List Char} {text : Octets} (string : StringText cs text)
    (rest : Octets) :
    textContent (text ++ rest) = .ok (cs.flatMap String.utf8EncodeChar, rest) := by
  induction string with
  | close => exact textContent_quote
  | char char _ ih =>
    rw [List.append_assoc, textContent_charText char, ih]
    rfl

/-- A string is read as the text that it is written for. -/
theorem spells_string {name : String} {text : Octets} (string : Form.string name text) :
    Spells text name := by
  intro rest
  have content := StringText.content string rest
  rw [← octets_ofList, String.ofList_toList] at content
  simp [readText, content, bind, Except.bind, text?_octets]

/-! ## Written strings -/

theorem charText_escapedChar (c : Char) :
    CharText c ((escapedChar c).flatMap String.utf8EncodeChar) := by
  unfold escapedChar
  iterate 7
    split
    next same => subst same; exact .short (by decide)
  split
  next control =>
    have zero : HexDigit 0 Octet.zero := by decide
    have high : HexDigit (c.toNat / 16) _ := ⟨by omega, .inl rfl⟩
    have low : HexDigit (c.toNat % 16) _ := ⟨by omega, .inl rfl⟩
    have unit := UnitText.intro zero zero high low
    have code : ((0 * 16 + 0) * 16 + c.toNat / 16) * 16 + c.toNat % 16 = c.toNat := by omega
    rw [code] at unit
    simp only [List.flatMap_cons, utf8EncodeChar_of_le (toNat_digitChar_le high.1),
      utf8EncodeChar_of_le (toNat_digitChar_le low.1)]
    exact .unit unit
  next =>
    rw [List.flatMap_singleton]
    exact .plain ⟨by assumption, by assumption, by assumption⟩

/-- What this program writes for a text is a string of its characters. -/
theorem string_spelling (name : String) : Form.string name (spelling name) := by
  rw [Form.string, spelling]
  induction name.toList with
  | nil => exact .close
  | cons c cs ih =>
    rw [List.flatMap_cons, List.append_assoc]
    exact .char (charText_escapedChar c) ih

/-! ## Passing over strings -/

theorem skipText_plain {plain : Octets} (all : ∀ c ∈ plain, Plain c) :
    (skipText (plain ++ rest)).map Subtype.val = (skipText rest).map Subtype.val := by
  induction plain with
  | nil => rfl
  | cons c plain ih =>
    obtain ⟨⟨noQuote, noBackslash, noControl⟩, tail⟩ := List.forall_mem_cons.mp all
    rw [← ih tail, List.cons_append, skipText]
    simp only [noQuote, noBackslash, noControl, if_false, Bool.false_eq_true]
    cases skipText (plain ++ rest) <;> rfl

theorem skipText_escape {input : Octets} {shorter : rest.length < input.length}
    (escape : skipEscape input = .ok ⟨rest, shorter⟩) :
    (skipText (Octet.backslash :: input)).map Subtype.val = (skipText rest).map Subtype.val := by
  have other : Octet.backslash ≠ Octet.quote := by decide
  rw [skipText]
  simp only [escape, if_neg other, if_true]
  cases skipText rest <;> rfl

/-- Passing over a string leaves what stands behind its closing quote. -/
theorem AnyString.skip {text : Octets} (string : AnyString text) (rest : Octets) :
    (skipText (text ++ rest)).map Subtype.val = .ok rest := by
  induction string with
  | close =>
    rw [List.singleton_append, skipText]
    rfl
  | plain unescaped _ ih =>
    rw [List.append_assoc,
      skipText_plain (plain_utf8EncodeChar unescaped.1 unescaped.2.1 unescaped.2.2), ih]
  | @short letter c more known _ ih =>
    have escape : skipEscape (letter :: (more ++ rest)) = .ok (.tail letter (more ++ rest)) := by
      simp only [skipEscape, (simpleEscape?_of_mem known).1, Option.isSome_some, if_true]
    rw [← ih]
    exact skipText_escape escape
  | @unit unit text more digits _ ih =>
    obtain ⟨shorter, read⟩ := digits.codeUnit (more ++ rest)
    have escape : skipEscape (Octet.smallU :: (text ++ (more ++ rest))) =
        .ok ⟨more ++ rest, Nat.lt_succ_of_lt shorter⟩ := by
      have simple : (simpleEscape? Octet.smallU).isSome = false := rfl
      simp only [skipEscape, simple, Bool.false_eq_true, if_false, if_true, read]
      rfl
    rw [← ih, List.cons_append, List.cons_append, List.append_assoc]
    exact skipText_escape escape

end AllPairs.Json
