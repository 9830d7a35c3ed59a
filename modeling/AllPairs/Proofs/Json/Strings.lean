import AllPairs.Json.Text

/-!
# Strings

A written string is read back as the text that was written, whatever its characters are. Characters of
more than one octet have no octet below 128, so none of their octets is taken for a quote, a backslash
or a control character.
-/

namespace AllPairs.Json

variable {rest : Octets}

/-- The octet stands for itself in a string. -/
def Plain (c : UInt8) : Prop :=
  c ≠ Octet.quote ∧ c ≠ Octet.backslash ∧ Octet.isControl c = false

/-- The octets are read as this text, from after the opening quote on. -/
def Spells (spelling : Octets) (text : String) : Prop :=
  ∀ rest, readText (spelling ++ rest) = .ok (text, rest)

/-- What is written of a text after the opening quote. -/
def spelling (text : String) : Octets :=
  text.toList.flatMap (fun c => (escapedChar c).flatMap String.utf8EncodeChar) ++ [Octet.quote]

theorem octets_writeText (text : String) :
    octets (writeText text) = Octet.quote :: spelling text := by
  rw [writeText, octets_ofList, spelling, List.flatMap_append, List.flatMap_cons, List.flatMap_assoc]
  rfl

/-! ## Octets of a string -/

theorem textContent_quote : textContent (Octet.quote :: rest) = .ok ([], rest) := by
  rw [textContent]
  rfl

theorem textContent_plain {plain : Octets} (all : ∀ c ∈ plain, Plain c) :
    textContent (plain ++ rest) = (textContent rest).map fun read => (plain ++ read.1, read.2) := by
  induction plain with
  | nil =>
    rw [List.nil_append]
    cases textContent rest <;> rfl
  | cons c plain ih =>
    obtain ⟨⟨noQuote, noBackslash, noControl⟩, tail⟩ := List.forall_mem_cons.mp all
    rw [List.cons_append, textContent]
    simp only [noQuote, noBackslash, noControl, ih tail, if_false, Bool.false_eq_true]
    cases textContent rest <;> rfl

theorem textContent_simpleEscape {letter decoded : UInt8}
    (escape : simpleEscape? letter = some decoded) :
    textContent (Octet.backslash :: letter :: rest) =
      (textContent rest).map fun read => (decoded :: read.1, read.2) := by
  have sequence : escapeSequence (letter :: rest) = .ok ([decoded], .tail letter rest) := by
    simp only [escapeSequence, escape]
  rw [textContent]
  simp only [sequence, if_true]
  rfl

theorem hexValue?_digitChar {d : Nat} (small : d < 16) :
    Octet.hexValue? (UInt8.ofNat (Nat.digitChar d).toNat) = some d := by
  have all : ∀ d < 16, Octet.hexValue? (UInt8.ofNat (Nat.digitChar d).toNat) = some d := by decide
  exact all d small

theorem toNat_digitChar_le {d : Nat} (small : d < 16) : (Nat.digitChar d).toNat ≤ 127 := by
  have all : ∀ d < 16, (Nat.digitChar d).toNat ≤ 127 := by decide
  exact all d small

theorem textContent_unicode {input decoded : Octets} {shorter : rest.length < input.length}
    (escape : unicodeEscape input = .ok (decoded, ⟨rest, shorter⟩)) :
    textContent (Octet.backslash :: Octet.smallU :: input) =
      (textContent rest).map fun read => (decoded ++ read.1, read.2) := by
  have sequence : escapeSequence (Octet.smallU :: input) =
      .ok (decoded, ⟨rest, Nat.lt_succ_of_lt shorter⟩) := by
    have letter : simpleEscape? Octet.smallU = none := rfl
    simp only [escapeSequence, letter, escape, if_true]
    rfl
  rw [textContent]
  simp only [sequence, if_true]
  rfl

/-- An escaped unit that is no half of a character is a character of its own. -/
theorem unicodeEscape_unit {input : Octets} {unit : Nat} {shorter : rest.length < input.length}
    (read : codeUnit input = .ok (unit, ⟨rest, shorter⟩)) (noFirst : ¬ IsFirstHalf unit)
    (noSecond : ¬ IsSecondHalf unit) :
    unicodeEscape input = .ok (codePoint unit, ⟨rest, shorter⟩) := by
  rw [unicodeEscape, read]
  exact (if_neg noSecond).trans (if_neg noFirst)

theorem codeUnit_control {c : Char} (control : c.toNat < 0x20) :
    codeUnit (Octet.zero :: Octet.zero :: UInt8.ofNat (Nat.digitChar (c.toNat / 16)).toNat ::
      UInt8.ofNat (Nat.digitChar (c.toNat % 16)).toNat :: rest) =
      .ok (c.toNat, ⟨rest, Nat.lt_of_lt_of_le (Nat.lt_succ_self _) (Nat.le_add_right _ 3)⟩) := by
  have high := hexValue?_digitChar (d := c.toNat / 16) (by omega)
  have low := hexValue?_digitChar (d := c.toNat % 16) (by omega)
  have zero : Octet.hexValue? Octet.zero = some 0 := rfl
  have value : ((0 * 16 + 0) * 16 + c.toNat / 16) * 16 + c.toNat % 16 = c.toNat := by omega
  simp only [codeUnit, zero, high, low, value]

/-! ## Characters of a string -/

theorem plain_of_le {c : UInt8} (high : 0x80 ≤ c.toNat) : Plain c := by
  refine ⟨?_, ?_, ?_⟩
  · rintro rfl
    exact absurd high (by decide)
  · rintro rfl
    exact absurd high (by decide)
  · simp only [Octet.isControl, decide_eq_false_iff_not, UInt8.lt_iff_toNat_lt]
    exact Nat.not_lt.mpr (Nat.le_trans (by decide) high)

theorem plain_ofNat {n : Nat} (low : 0x80 ≤ n) (high : n < 0x100) : Plain (UInt8.ofNat n) :=
  plain_of_le (by rwa [UInt8.toNat_ofNat_of_lt' high])

/-- A character that is not escaped consists of octets that stand for themselves. -/
theorem plain_utf8EncodeChar {c : Char} (noQuote : c ≠ '\x22') (noBackslash : c ≠ '\\')
    (noControl : ¬ c.toNat < 0x20) : ∀ b ∈ String.utf8EncodeChar c, Plain b := by
  by_cases ascii : c.toNat ≤ 127
  · have code : (UInt8.ofNat c.toNat).toNat = c.toNat := 
      UInt8.toNat_ofNat_of_lt' (Nat.lt_of_le_of_lt ascii (by decide))
    simp only [utf8EncodeChar_of_le ascii, List.mem_singleton, forall_eq]
    refine ⟨?_, ?_, ?_⟩
    · intro same
      rw [same] at code
      exact noQuote (Char.toNat_inj.mp code.symm)
    · intro same
      rw [same] at code
      exact noBackslash (Char.toNat_inj.mp code.symm)
    · simp only [Octet.isControl, decide_eq_false_iff_not, UInt8.lt_iff_toNat_lt, code]
      exact noControl
  · have wide : ¬ c.val.toNat ≤ 127 := ascii
    simp only [String.utf8EncodeChar, if_neg wide]
    split
    · simp only [List.forall_mem_cons]
      exact ⟨plain_ofNat (by omega) (by omega), plain_ofNat (by omega) (by omega), nofun⟩
    split
    · simp only [List.forall_mem_cons]
      exact ⟨plain_ofNat (by omega) (by omega), plain_ofNat (by omega) (by omega),
        plain_ofNat (by omega) (by omega), nofun⟩
    · simp only [List.forall_mem_cons]
      exact ⟨plain_ofNat (by omega) (by omega), plain_ofNat (by omega) (by omega),
        plain_ofNat (by omega) (by omega), plain_ofNat (by omega) (by omega), nofun⟩

theorem textContent_escapedChar (c : Char) :
    textContent ((escapedChar c).flatMap String.utf8EncodeChar ++ rest) =
      (textContent rest).map fun read => (String.utf8EncodeChar c ++ read.1, read.2) := by
  unfold escapedChar
  iterate 7
    split
    next same => subst same; exact textContent_simpleEscape rfl
  split
  next control =>
    have unit := @codeUnit_control rest c control
    have read := textContent_unicode (unicodeEscape_unit unit
      (by simp only [IsFirstHalf]; omega) (by simp only [IsSecondHalf]; omega))
    rw [codePoint, Char.ofNat_toNat] at read
    rw [← read]
    have low := toNat_digitChar_le (d := c.toNat / 16) (by omega)
    have high := toNat_digitChar_le (d := c.toNat % 16) (by omega)
    simp only [List.flatMap_cons, utf8EncodeChar_of_le low, utf8EncodeChar_of_le high]
    rfl
  next =>
    rw [List.flatMap_singleton]
    apply textContent_plain
    apply plain_utf8EncodeChar <;> assumption

theorem textContent_escaped (cs : List Char) :
    textContent (cs.flatMap (fun c => (escapedChar c).flatMap String.utf8EncodeChar) ++
      Octet.quote :: rest) = .ok (cs.flatMap String.utf8EncodeChar, rest) := by
  induction cs with
  | nil => exact textContent_quote
  | cons c cs ih =>
    rw [List.flatMap_cons, List.append_assoc, textContent_escapedChar, ih]
    rfl

/-- A written string is read back. -/
theorem spells_spelling (text : String) : Spells (spelling text) text := by
  intro rest
  have content := @textContent_escaped rest text.toList
  rw [← octets_ofList, String.ofList_toList] at content
  rw [spelling, List.append_assoc, List.singleton_append, readText, content]
  simp [bind, Except.bind, text?_octets]

end AllPairs.Json
