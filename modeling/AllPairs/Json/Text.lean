import AllPairs.Json.Fault
import AllPairs.Json.Octet

/-!
Strings in JSON. Writing escapes quotes, backslashes and control characters and leaves every other
character as it is. Reading decodes escapes, joins the two halves of characters that are escaped as
pairs of 16-bit units, and checks at the end that the whole is UTF-8. A string that is only passed
over is checked for its escapes alone.
-/

namespace AllPairs.Json

/-- What is left of an input after at least one octet of it was read. -/
abbrev Rest (input : Octets) := { rest : Octets // rest.length < input.length }

/-- What is left of an input that is part of a longer one. -/
def Rest.within {inner outer : Octets} (h : inner.length ≤ outer.length) (rest : Rest inner) :
    Rest outer :=
  ⟨rest.1, Nat.lt_of_lt_of_le rest.2 h⟩

/-- What follows the first octet. -/
def Rest.tail (first : UInt8) (rest : Octets) : Rest (first :: rest) :=
  ⟨rest, Nat.lt_succ_self _⟩

/-- What is left after one more octet was read first. -/
def Rest.after {input : Octets} (first : UInt8) (rest : Rest input) : Rest (first :: input) :=
  ⟨rest.1, Nat.lt_succ_of_lt rest.2⟩

/-- A character inside a written string. -/
def escapedChar (c : Char) : List Char :=
  if c = '\x22' then ['\\', '\x22']
  else if c = '\\' then ['\\', '\\']
  else if c = '\x08' then ['\\', 'b']
  else if c = '\t' then ['\\', 't']
  else if c = '\n' then ['\\', 'n']
  else if c = '\x0c' then ['\\', 'f']
  else if c = '\r' then ['\\', 'r']
  else if c.toNat < 0x20 then
    ['\\', 'u', '0', '0', Nat.digitChar (c.toNat / 16), Nat.digitChar (c.toNat % 16)]
  else [c]

/-- A text as a string. -/
def writeText (text : String) : String :=
  String.ofList ('\x22' :: text.toList.flatMap escapedChar ++ ['\x22'])

/-- The octet that a letter after a backslash stands for. -/
def simpleEscape? : UInt8 → Option UInt8
  | Octet.quote => some Octet.quote
  | Octet.backslash => some Octet.backslash
  | Octet.slash => some Octet.slash
  | Octet.smallB => some 0x08
  | Octet.smallF => some 0x0c
  | Octet.smallN => some 0x0a
  | Octet.smallR => some 0x0d
  | Octet.smallT => some 0x09
  | _ => none

/-- Four hexadecimal digits. All four octets have to be there before they are looked at. -/
def codeUnit : (input : Octets) → Except Fault (Nat × Rest input)
  | a :: b :: c :: d :: rest =>
    match Octet.hexValue? a, Octet.hexValue? b, Octet.hexValue? c, Octet.hexValue? d with
    | some a, some b, some c, some d =>
      .ok (((a * 16 + b) * 16 + c) * 16 + d,
        ⟨rest, Nat.lt_of_lt_of_le (Nat.lt_succ_self _) (Nat.le_add_right _ 3)⟩)
    | _, _, _, _ => .error (.malformed .badEscape)
  | _ => .error (.ended .text)

/-- The unit is the first half of a pair. -/
def IsFirstHalf (unit : Nat) : Prop := 0xd800 ≤ unit ∧ unit < 0xdc00

/-- The unit is the second half of a pair. -/
def IsSecondHalf (unit : Nat) : Prop := 0xdc00 ≤ unit ∧ unit < 0xe000

instance (unit : Nat) : Decidable (IsFirstHalf unit) := inferInstanceAs (Decidable (_ ∧ _))

instance (unit : Nat) : Decidable (IsSecondHalf unit) := inferInstanceAs (Decidable (_ ∧ _))

/-- The UTF-8 form of a code point. -/
def codePoint (n : Nat) : Octets :=
  String.utf8EncodeChar (Char.ofNat n)

/-- The character of an escape, from after its letter on. -/
def unicodeEscape (input : Octets) : Except Fault (Octets × Rest input) := do
  let (unit, ⟨rest, shorter⟩) ← codeUnit input
  if IsSecondHalf unit then .error (.malformed .wrongHalf)
  else if IsFirstHalf unit then
    match rest, shorter with
    | [], _ | [Octet.backslash], _ => .error (.ended .text)
    | Octet.backslash :: Octet.smallU :: more, shorter =>
      let (second, left) ← codeUnit more
      if IsSecondHalf second then
        .ok (codePoint (0x10000 + (unit - 0xd800) * 0x400 + (second - 0xdc00)),
          left.within (Nat.le_trans (Nat.le_add_right _ 2) (Nat.le_of_lt shorter)))
      else .error (.malformed .wrongHalf)
    | _, _ => .error (.malformed .halfCharacter)
  else .ok (codePoint unit, ⟨rest, shorter⟩)

/-- The octets that an escape stands for, from after its backslash on. -/
def escapeSequence : (input : Octets) → Except Fault (Octets × Rest input)
  | [] => .error (.ended .text)
  | c :: rest =>
    match simpleEscape? c with
    | some decoded => .ok ([decoded], .tail c rest)
    | none =>
      if c = Octet.smallU then
        (unicodeEscape rest).map fun read => (read.1, read.2.after c)
      else .error (.malformed .badEscape)

/-- The octets that a string stands for, from after its opening quote on. -/
def textContent (input : Octets) : Except Fault (Octets × Octets) :=
  match input with
  | [] => .error (.ended .text)
  | c :: rest =>
    if c = Octet.quote then .ok ([], rest)
    else if c = Octet.backslash then
      match escapeSequence rest with
      | .error fault => .error fault
      | .ok (decoded, ⟨left, _⟩) =>
        (textContent left).map fun read => (decoded ++ read.1, read.2)
    else if Octet.isControl c then .error (.malformed .controlCharacter)
    else (textContent rest).map fun read => (c :: read.1, read.2)
termination_by input.length

/-- The text of a string, from after its opening quote on. -/
def readText (input : Octets) : Except Fault (String × Octets) := do
  let (content, rest) ← textContent input
  match text? content with
  | some text => .ok (text, rest)
  | none => .error (.malformed .notUtf8)

/-- Passes over an escape, from after its backslash on. Halves of characters are not matched. -/
def skipEscape : (input : Octets) → Except Fault (Rest input)
  | [] => .error (.ended .text)
  | c :: rest =>
    if (simpleEscape? c).isSome then .ok (.tail c rest)
    else if c = Octet.smallU then (codeUnit rest).map fun read => read.2.after c
    else .error (.malformed .badEscape)

/-- Passes over a string, from after its opening quote on. -/
def skipText (input : Octets) : Except Fault (Rest input) :=
  match input with
  | [] => .error (.ended .text)
  | c :: rest =>
    if c = Octet.quote then .ok (.tail c rest)
    else if c = Octet.backslash then
      match skipEscape rest with
      | .error fault => .error fault
      | .ok ⟨left, shorter⟩ =>
        (skipText left).map fun skipped => (skipped.within (Nat.le_of_lt shorter)).after c
    else if Octet.isControl c then .error (.malformed .controlCharacter)
    else (skipText rest).map (.after c)
termination_by input.length

end AllPairs.Json
