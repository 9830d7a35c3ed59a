import AllPairs.Decimal.Style
import AllPairs.Text.Quoted

/-!
What can be wrong with a JSON text: the input ends too early, it does not follow the grammar, or it
is well-formed but not of the shape that is wanted.
-/

namespace AllPairs.Json

/-- What was being read when the input ended. -/
inductive Unfinished where
  | value
  | list
  | object
  | text
deriving DecidableEq

/-- A breach of the grammar. -/
inductive Malformed where
  | noValue
  | noColon
  | noCommaOrBrace
  | noCommaOrBracket
  | keyNotText
  | trailingComma
  | trailingCharacters
  | brokenWord
  | badNumber
  | numberOutOfRange
  | badEscape
  /-- An escape for the first half of a character without one for the second half. -/
  | halfCharacter
  /-- An escape for the second half of a character, or two first halves. -/
  | wrongHalf
  | controlCharacter
  | notUtf8
deriving DecidableEq

/-- A value that was found in place of another one. -/
inductive Found where
  | null
  | boolean (value : Bool)
  | integer (value : Int)
  | float (value : Float)
  | text (value : String)
  | sequence
  | map
  /-- The name of an alternative without its content. -/
  | bareName

/-- A value of another shape than the one that is wanted. -/
inductive Mismatch where
  | wrongType (found : Found) (expected : String)
  | wrongValue (found : Found) (expected : String)
  | wrongLength (length : Nat) (expected : String)
  | unknownVariant (name : String) (known : List String)
  | missingField (name : String)
  | duplicateField (name : String)

/-- Why reading failed. -/
inductive Fault where
  | ended (unfinished : Unfinished)
  | malformed (fault : Malformed)
  | mismatch (fault : Mismatch)

/-- The words for what was unfinished. -/
def Unfinished.describe : Unfinished → String
  | value => "a value"
  | list => "a list"
  | object => "an object"
  | text => "a string"

/-- What breaks the grammar. -/
def Malformed.message : Malformed → String
  | noValue => "expected value"
  | noColon => "expected `:`"
  | noCommaOrBrace => "expected `,` or `\x7d`"
  | noCommaOrBracket => "expected `,` or `]`"
  | keyNotText => "key must be a string"
  | trailingComma => "trailing comma"
  | trailingCharacters => "trailing characters"
  | brokenWord => "expected ident"
  | badNumber => "invalid number"
  | numberOutOfRange => "number out of range"
  | badEscape => "invalid escape"
  | halfCharacter => "unexpected end of hex escape"
  | wrongHalf => "lone leading surrogate in hex escape"
  | controlCharacter => "control character (\\u0000-\\u001F) found while parsing a string"
  | notUtf8 => "invalid unicode code point"

/-- The words for a value that was found. -/
def Found.describe : Found → String
  | null => "null"
  | boolean value => "boolean `" ++ (if value then "true" else "false") ++ "`"
  | integer value => "integer `" ++ toString value ++ "`"
  | float value => "floating point `" ++ Decimal.shortestText value ++ "`"
  | text value => "string " ++ Text.quoted value
  | sequence => "sequence"
  | map => "map"
  | bareName => "unit variant"

/-- What is not as wanted. -/
def Mismatch.message : Mismatch → String
  | wrongType found expected => "invalid type: " ++ found.describe ++ ", expected " ++ expected
  | wrongValue found expected => "invalid value: " ++ found.describe ++ ", expected " ++ expected
  | wrongLength length expected =>
    "invalid length " ++ toString length ++ ", expected " ++ expected
  | unknownVariant name known =>
    "unknown variant `" ++ name ++ "`, expected " ++
      String.intercalate " or " (known.map fun name => "`" ++ name ++ "`")
  | missingField name => "missing field `" ++ name ++ "`"
  | duplicateField name => "duplicate field `" ++ name ++ "`"

/-- What went wrong. -/
def Fault.message : Fault → String
  | ended unfinished => "EOF while parsing " ++ unfinished.describe
  | malformed fault => fault.message
  | mismatch fault => fault.message

end AllPairs.Json
