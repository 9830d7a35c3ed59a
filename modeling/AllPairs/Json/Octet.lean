/-!
Texts as the octets of their UTF-8 form, which is what a JSON reader sees, and the octets that have
a meaning in JSON.
-/

namespace AllPairs.Json

/-- A text, or what claims to be one, as it is stored. -/
abbrev Octets := List UInt8

/-- The UTF-8 form of a text. -/
def octets (text : String) : Octets :=
  text.toByteArray.data.toList

/-- The text with the given UTF-8 form; none if it is the form of no text. -/
def text? (octets : Octets) : Option String :=
  String.fromUTF8? ⟨octets.toArray⟩

namespace Octet

@[match_pattern] abbrev quote : UInt8 := 0x22
@[match_pattern] abbrev plus : UInt8 := 0x2b
@[match_pattern] abbrev comma : UInt8 := 0x2c
@[match_pattern] abbrev minus : UInt8 := 0x2d
@[match_pattern] abbrev point : UInt8 := 0x2e
@[match_pattern] abbrev slash : UInt8 := 0x2f
@[match_pattern] abbrev zero : UInt8 := 0x30
@[match_pattern] abbrev colon : UInt8 := 0x3a
@[match_pattern] abbrev capitalE : UInt8 := 0x45
@[match_pattern] abbrev openBracket : UInt8 := 0x5b
@[match_pattern] abbrev backslash : UInt8 := 0x5c
@[match_pattern] abbrev closeBracket : UInt8 := 0x5d
@[match_pattern] abbrev smallB : UInt8 := 0x62
@[match_pattern] abbrev smallE : UInt8 := 0x65
@[match_pattern] abbrev smallF : UInt8 := 0x66
@[match_pattern] abbrev smallN : UInt8 := 0x6e
@[match_pattern] abbrev smallR : UInt8 := 0x72
@[match_pattern] abbrev smallT : UInt8 := 0x74
@[match_pattern] abbrev smallU : UInt8 := 0x75
@[match_pattern] abbrev openBrace : UInt8 := 0x7b
@[match_pattern] abbrev closeBrace : UInt8 := 0x7d

/-- Blank, tabulator, line feed and carriage return may stand between tokens. -/
def isBlank (c : UInt8) : Bool :=
  c == 0x20 || c == 0x09 || c == 0x0a || c == 0x0d

/-- The octet is a decimal digit. -/
def isDigit (c : UInt8) : Bool :=
  0x30 ≤ c && c ≤ 0x39

/-- The value of a decimal digit. -/
def digitValue (c : UInt8) : Nat :=
  c.toNat - 0x30

/-- The value of a hexadecimal digit of either case. -/
def hexValue? (c : UInt8) : Option Nat :=
  if isDigit c then some (digitValue c)
  else if 0x41 ≤ c && c ≤ 0x46 then some (c.toNat - 0x41 + 10)
  else if 0x61 ≤ c && c ≤ 0x66 then some (c.toNat - 0x61 + 10)
  else none

/-- Octets below the blank are control characters. -/
def isControl (c : UInt8) : Bool :=
  c < 0x20

end Octet

/-- The input without the blanks at its start. -/
def afterBlanks (input : Octets) : Octets :=
  input.dropWhile Octet.isBlank

theorem length_afterBlanks_le (input : Octets) : (afterBlanks input).length ≤ input.length :=
  (List.dropWhile_suffix _).length_le

@[simp]
theorem octets_append (s t : String) : octets (s ++ t) = octets s ++ octets t := by
  simp [octets]

theorem octets_ofList (cs : List Char) :
    octets (String.ofList cs) = cs.flatMap String.utf8EncodeChar := by
  simp [octets, String.toByteArray_ofList, List.utf8Encode]

theorem utf8EncodeChar_of_le {c : Char} (small : c.toNat ≤ 127) :
    String.utf8EncodeChar c = [UInt8.ofNat c.toNat] := by
  rw [String.utf8EncodeChar]
  exact if_pos small

theorem octets_ofList_of_le {cs : List Char} (small : ∀ c ∈ cs, c.toNat ≤ 127) :
    octets (String.ofList cs) = cs.map fun c => UInt8.ofNat c.toNat := by
  induction cs with
  | nil => rfl
  | cons c cs ih =>
    obtain ⟨head, tail⟩ := List.forall_mem_cons.mp small
    rw [octets_ofList] at ih ⊢
    rw [List.flatMap_cons, utf8EncodeChar_of_le head, ih tail]
    rfl

theorem text?_octets (s : String) : text? (octets s) = some s := by
  have same : (⟨(octets s).toArray⟩ : ByteArray) = s.toByteArray := by simp [octets]
  rw [text?, same, String.fromUTF8?]
  exact dif_pos s.isValidUTF8

end AllPairs.Json
