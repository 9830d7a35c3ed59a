import AllPairs.Decimal.Shortest

/-!
How decimals are written: in positional notation while the point stays near the digits, in
scientific notation otherwise, or with a fixed number of places.
-/

namespace AllPairs.Decimal

/-- The digits of a natural number. -/
def digitsOf (n : Nat) : List Char :=
  Nat.toDigits 10 n

/-- As many zeros as asked for. -/
def zeros (count : Nat) : List Char :=
  List.replicate count '0'

/-- How a number is written without a fixed number of places. -/
structure Style where
  /-- The least position of the point, counted from the first digit, in positional notation. -/
  firstPoint : Int
  /-- The greatest position of the point in positional notation. -/
  lastPoint : Int
  /-- What stands before an exponent that is not negative. -/
  exponentSign : List Char

/-- Numbers from `10 ^ -5` to below `10 ^ 16` are written positionally. -/
def plain : Style where
  firstPoint := -4
  lastPoint := 16
  exponentSign := ['+']

/-- Positional digits with at least one place after the point; `point` is its position. -/
def positional (digits : List Char) (point : Int) : List Char :=
  if point ≤ 0 then '0' :: '.' :: zeros (-point).toNat ++ digits
  else
    let whole := point.toNat
    if digits.length ≤ whole then digits ++ zeros (whole - digits.length) ++ ['.', '0']
    else digits.take whole ++ '.' :: digits.drop whole

/-- One digit, the others after a point if there are any, and the exponent. -/
def scientific (style : Style) (digits : List Char) (exponent : Int) : List Char :=
  let mantissa :=
    match digits with
    | first :: second :: rest => first :: '.' :: second :: rest
    | _ => digits
  let sign := if exponent < 0 then ['-'] else style.exponentSign
  mantissa ++ 'e' :: sign ++ digitsOf exponent.natAbs

namespace Scaled

/-- A decimal in the given style. -/
def write (style : Style) (x : Scaled) : List Char :=
  if x.digits = 0 then ['0', '.', '0']
  else
    let digits := digitsOf x.digits
    let point : Int := digits.length + x.exponent
    if style.firstPoint ≤ point ∧ point ≤ style.lastPoint then positional digits point
    else scientific style digits (point - 1)

end Scaled

/-- A text with a minus sign in front if it belongs to a negative number. -/
def signed (negative : Bool) (text : List Char) : String :=
  String.ofList (if negative then '-' :: text else text)

/-- The shortest text that reads back as a finite number; none for other numbers. -/
def shortestText? (x : Float) : Option String :=
  (Dyadic.ofFloat? x).map fun value => signed value.negative (value.shortest.write plain)

/-- A quotient rounded to the nearest natural number, a half to the even neighbour. -/
def roundDiv (dividend divisor : Nat) : Nat :=
  let quotient := dividend / divisor
  let remainder := dividend % divisor
  if 2 * remainder < divisor then quotient
  else if divisor < 2 * remainder then quotient + 1
  else if quotient % 2 = 0 then quotient else quotient + 1

/-- A number of units of `10 ^ -places`, written with that many places. -/
def withPlaces (places units : Nat) : List Char :=
  let digits := digitsOf units
  let padded := zeros (places + 1 - digits.length) ++ digits
  let whole := padded.length - places
  padded.take whole ++ '.' :: padded.drop whole

/-- The exact value of a number rounded to a fixed number of places. -/
def Dyadic.fixed (places : Nat) (x : Dyadic) : String :=
  let scaled := x.significand * Nat.pow 10 places * Nat.pow 2 x.exponent.toNat
  signed x.negative (withPlaces places (roundDiv scaled (Nat.pow 2 (-x.exponent).toNat)))

/-- The name of a number that has no digits. -/
def boundlessName (x : Float) : String :=
  if x.isNaN then "NaN" else if x < 0 then "-inf" else "inf"

/-- The shortest text that reads back as a number, or its name. -/
def shortestText (x : Float) : String :=
  (shortestText? x).getD (boundlessName x)

/-- The text of a number with a fixed number of places, or its name. -/
def fixedText (places : Nat) (x : Float) : String :=
  ((Dyadic.ofFloat? x).map (Dyadic.fixed places)).getD (boundlessName x)

end AllPairs.Decimal
