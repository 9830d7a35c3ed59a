/-!
Written decimal numbers and the binary numbers that they stand for. The leading digits that fit
into 64 bits are the significand; it is rounded to binary once and multiplied or divided once by a
power of ten. So a long numeral may come out next to the nearest binary number instead of on it.
-/

namespace AllPairs

/-- The number of values of a word of 64 bits. -/
def wordSize : Nat := 0x10000000000000000

namespace Decimal

/-- A number as it is written. -/
structure Numeral where
  negative : Bool
  /-- The digits before the point. -/
  whole : List Nat
  /-- The digits after the point, if there is a point. -/
  fraction : Option (List Nat)
  /-- The exponent of ten, if one is written. -/
  exponent : Option Int
deriving DecidableEq

/-- A number that was read. -/
inductive Number where
  | natural (value : Nat)
  /-- A whole number below zero. -/
  | negative (magnitude : Nat)
  | float (value : Float)

/-- The value of a list of digits, the first one counting most. -/
def ofDigits (digits : List Nat) : Nat :=
  digits.foldl (fun value digit => 10 * value + digit) 0

/-- The digits `digits` scaled by a power of ten. -/
structure Significand where
  digits : Nat
  exponent : Int
deriving DecidableEq

namespace Significand

/-- Adds digits before the point while the significand fits into a word. From the first digit that
does not fit on, every digit only raises the exponent. -/
def absorbWhole : Nat → List Nat → Significand
  | significand, [] => ⟨significand, 0⟩
  | significand, digit :: rest =>
    if 10 * significand + digit < wordSize then absorbWhole (10 * significand + digit) rest
    else ⟨significand, rest.length + 1⟩

/-- Adds digits after the point while the significand fits into a word, and drops the others. -/
def absorbFraction (significand : Significand) : List Nat → Significand
  | [] => significand
  | digit :: rest =>
    if 10 * significand.digits + digit < wordSize then
      absorbFraction ⟨10 * significand.digits + digit, significand.exponent - 1⟩ rest
    else significand

/-- A power of ten as a binary number. -/
def tenPow (exponent : Nat) : Float :=
  Float.ofScientific 1 false exponent

/-- A binary number times a power of ten; none if that is out of range. Powers beyond `10 ^ 308`
are not binary numbers, so smaller quotients are reached in steps of that size. -/
def scale (value : Float) (exponent : Int) : Option Float :=
  if exponent.natAbs ≤ 308 then
    if exponent < 0 then some (value / tenPow exponent.natAbs)
    else
      let product := value * tenPow exponent.natAbs
      if product.isInf then none else some product
  else if value == 0 then some value
  else if _h : exponent < 0 then scale (value / tenPow 308) (exponent + 308)
  else none
termination_by exponent.natAbs
decreasing_by omega

end Significand

namespace Numeral

/-- The significand of a numeral, sign apart. -/
def significand (numeral : Numeral) : Significand :=
  let read := Significand.absorbFraction (.absorbWhole 0 numeral.whole) (numeral.fraction.getD [])
  { read with exponent := read.exponent + numeral.exponent.getD 0 }

/-- The binary number that a numeral stands for; none if it is out of range. -/
def toFloat? (numeral : Numeral) : Option Float :=
  let significand := numeral.significand
  (Significand.scale (Float.ofNat significand.digits) significand.exponent).map fun value =>
    if numeral.negative then -value else value

/-- The number that a numeral stands for. Without point and exponent it is a whole number if it
fits into a word, or with its sign into half a word; a negative zero does not count as whole.
None if the number is out of range. -/
def toNumber? (numeral : Numeral) : Option Number :=
  let value := ofDigits numeral.whole
  let whole := numeral.fraction.isNone && numeral.exponent.isNone
  if whole && !numeral.negative && decide (value < wordSize) then some (.natural value)
  else if whole && numeral.negative && decide (0 < value ∧ 2 * value ≤ wordSize) then
    some (.negative value)
  else numeral.toFloat?.map .float

end Numeral

/-- A number as a binary number. -/
def Number.toFloat : Number → Float
  | natural value => Float.ofNat value
  | negative magnitude => -Float.ofNat magnitude
  | float value => value

end Decimal
end AllPairs
