import AllPairs.Proofs.Json.Composite
import AllPairs.Proofs.Json.Numerals

/-!
# The grammar of JSON

Which octets are JSON, said without a reader. A form is a set of texts, all the ways in which something
can be written: the characters of a string may be escaped or not, numbers that are passed over may have
points and exponents, and blanks may stand between any two tokens.
-/

namespace AllPairs.Json

/-- The texts in which something can be written. -/
abbrev Form := Octets → Prop

/-! ## Strings -/

/-- The octet is the hexadecimal digit of this value, in either case. -/
def HexDigit (value : Nat) (c : UInt8) : Prop :=
  value < 16 ∧ (c = UInt8.ofNat (Nat.digitChar value).toNat ∨
    c = UInt8.ofNat (Nat.digitChar value).toUpper.toNat)

instance (value : Nat) (c : UInt8) : Decidable (HexDigit value c) :=
  inferInstanceAs (Decidable (_ ∧ _))

/-- Four hexadecimal digits that make a unit of sixteen bits. -/
inductive UnitText : (unit : Nat) → Form
  | intro {a b c d : Nat} {first second third fourth : UInt8} :
    HexDigit a first → HexDigit b second → HexDigit c third → HexDigit d fourth →
    UnitText (((a * 16 + b) * 16 + c) * 16 + d) [first, second, third, fourth]

/-- The letters that stand for a character after a backslash. -/
def shortEscapes : List (UInt8 × Char) :=
  [(Octet.quote, '\x22'), (Octet.backslash, '\\'), (Octet.slash, '/'), (Octet.smallB, '\x08'),
    (Octet.smallF, '\x0c'), (Octet.smallN, '\n'), (Octet.smallR, '\r'), (Octet.smallT, '\t')]

/-- The character needs no escape. -/
def Unescaped (c : Char) : Prop :=
  c ≠ '\x22' ∧ c ≠ '\\' ∧ ¬ c.toNat < 0x20

instance (c : Char) : Decidable (Unescaped c) :=
  inferInstanceAs (Decidable (_ ∧ _))

/-- A character inside a string: as it is, escaped by a letter, by its code or, beyond the basic plane,
by a pair of units. -/
inductive CharText : Char → Form
  | plain {c : Char} : Unescaped c → CharText c (String.utf8EncodeChar c)
  | short {letter : UInt8} {c : Char} : (letter, c) ∈ shortEscapes →
    CharText c [Octet.backslash, letter]
  | unit {c : Char} {text : Octets} : UnitText c.toNat text →
    CharText c (Octet.backslash :: Octet.smallU :: text)
  | pair {c : Char} {high low : Nat} {first second : Octets} : IsFirstHalf high → IsSecondHalf low →
    c.toNat = 0x10000 + (high - 0xd800) * 0x400 + (low - 0xdc00) →
    UnitText high first → UnitText low second →
    CharText c (Octet.backslash :: Octet.smallU ::
      (first ++ Octet.backslash :: Octet.smallU :: second))

/-- A string of these characters, from after its opening quote on. -/
inductive StringText : List Char → Form
  | close : StringText [] [Octet.quote]
  | char {c : Char} {cs : List Char} {text more : Octets} : CharText c text → StringText cs more →
    StringText (c :: cs) (text ++ more)

/-- Any string, from after its opening quote on. The units of its escapes need not be characters: a half
of a pair may stand alone. -/
inductive AnyString : Form
  | close : AnyString [Octet.quote]
  | plain {c : Char} {more : Octets} : Unescaped c → AnyString more →
    AnyString (String.utf8EncodeChar c ++ more)
  | short {letter : UInt8} {c : Char} {more : Octets} : (letter, c) ∈ shortEscapes →
    AnyString more → AnyString (Octet.backslash :: letter :: more)
  | unit {unit : Nat} {text more : Octets} : UnitText unit text → AnyString more →
    AnyString (Octet.backslash :: Octet.smallU :: (text ++ more))

/-! ## Numbers -/

/-- One or more digits. -/
def DigitsText : Form := fun text => text ≠ [] ∧ ∀ c ∈ text, Octet.isDigit c

/-- A point with digits, or nothing. -/
inductive FractionText : Form
  | absent : FractionText []
  | present {digits : Octets} : DigitsText digits → FractionText (Octet.point :: digits)

/-- An exponent with or without a sign, or nothing. -/
inductive ExponentText : Form
  | absent : ExponentText []
  | present {letter : UInt8} {sign digits : Octets} : letter = Octet.smallE ∨ letter = Octet.capitalE →
    sign = [] ∨ sign = [Octet.plus] ∨ sign = [Octet.minus] → DigitsText digits →
    ExponentText (letter :: (sign ++ digits))

/-- A number of any size and precision. -/
inductive NumberText : Form
  | intro {sign whole fraction exponent : Octets} : sign = [] ∨ sign = [Octet.minus] →
    WholeNumeral whole → FractionText fraction → ExponentText exponent →
    NumberText (sign ++ (whole ++ (fraction ++ exponent)))

/-! ## Values -/

/-- A value that is neither a list nor an object. -/
inductive ScalarText : Form
  | word {name : String} : name ∈ ["null", "true", "false"] → ScalarText (octets name)
  | number {text : Octets} : NumberText text → ScalarText text
  | string {text : Octets} : AnyString text → ScalarText (Octet.quote :: text)

/-- The parts that values are made of. -/
inductive Part where
  | value
  /-- The items of a list with its closing bracket, all of them or those behind an item. -/
  | items (first : Bool)
  /-- The members of an object with its closing brace, all of them or those behind a member. -/
  | members (first : Bool)

/-- Well-formed JSON: values of any shape and depth, and the parts of lists and objects. -/
inductive WellFormed : Part → Form
  | scalar {text : Octets} : ScalarText text → WellFormed .value text
  | list {text : Octets} : WellFormed (.items true) text →
    WellFormed .value (Octet.openBracket :: text)
  | object {text : Octets} : WellFormed (.members true) text →
    WellFormed .value (Octet.openBrace :: text)
  | endItems {first : Bool} {gap : Octets} : Blank gap →
    WellFormed (.items first) (gap ++ [Octet.closeBracket])
  | item {first : Bool} {gap text more : Octets} : Lead first gap → WellFormed .value text →
    WellFormed (.items false) more → WellFormed (.items first) (gap ++ (text ++ more))
  | endMembers {first : Bool} {gap : Octets} : Blank gap →
    WellFormed (.members first) (gap ++ [Octet.closeBrace])
  | member {first : Bool} {gap key before after text more : Octets} : Lead first gap →
    AnyString key → Blank before → Blank after → WellFormed .value text →
    WellFormed (.members false) more → WellFormed (.members first) (gap ++
      (Octet.quote :: (key ++ (before ++ Octet.colon :: (after ++ (text ++ more))))))

/-! ## Forms of given values -/

/-- Texts of the given forms one behind the other, each behind what stands before an item. -/
inductive Series : (first : Bool) → List Form → Form
  | nil {first : Bool} : Series first [] []
  | cons {first : Bool} {form : Form} {forms : List Form} {gap text more : Octets} :
    Lead first gap → form text → Series false forms more →
    Series first (form :: forms) (gap ++ (text ++ more))

namespace Form

/-- A natural number in decimal digits. -/
def natural (n : Nat) : Form := fun text => text = octets (toString n)

/-- A string for this text, from after its opening quote on. -/
def string (text : String) : Form := StringText text.toList

/-- Any value. -/
def value : Form := WellFormed .value

/-- A list of items of the given forms. -/
inductive array (items : List Form) : Form
  | intro {inner gap : Octets} : Series true items inner → Blank gap →
    array items (Octet.openBracket :: (inner ++ (gap ++ [Octet.closeBracket])))

/-- A member of an object. -/
inductive member (key value : Form) : Form
  | intro {name before after text : Octets} : key name → Blank before → Blank after → value text →
    member key value (Octet.quote :: (name ++ (before ++ Octet.colon :: (after ++ text))))

/-- An object whose members have the given forms of keys and values. -/
inductive object (members : List (Form × Form)) : Form
  | intro {inner gap : Octets} : Series true (members.map fun entry => member entry.1 entry.2) inner →
    Blank gap → object members (Octet.openBrace :: (inner ++ (gap ++ [Octet.closeBrace])))

end Form
end AllPairs.Json
