import AllPairs.Decimal.Dyadic

/-!
The fewest decimal digits that read back as a given binary number. All reals in an interval around
the number are rounded to it; the ends belong to the interval if its significand is even. Decimal
grids are tried from coarse to fine, and the first one with a point in the interval is taken: a
coarser grid has fewer digits. Only the two points next to the number have to be tested. If both
are in the interval the nearer one counts, and of two equally near ones the even one.
-/

namespace AllPairs.Decimal

/-- The number `digits * 10 ^ exponent`. -/
structure Scaled where
  digits : Nat
  exponent : Int
deriving DecidableEq

/-- Two natural numbers in the proportion of `10 ^ place` to `2 ^ exponent`. -/
def proportion (place exponent : Int) : Nat × Nat :=
  (Nat.pow 10 place.toNat * Nat.pow 2 (-exponent).toNat,
    Nat.pow 2 exponent.toNat * Nat.pow 10 (-place).toNat)

namespace Dyadic

variable (x : Dyadic)

/-- The ends of the interval, in quarters of the last binary place of the number. -/
def interval : Nat × Nat :=
  (4 * x.significand - (if x.NarrowBelow then 1 else 2), 4 * x.significand + 2)

/-- A multiple of the decimal unit `ten`, in a measure where a quarter of the last binary place is
`quarter`, lies in the interval. -/
def ReadsBack (ten quarter multiple : Nat) : Prop :=
  let value := multiple * ten
  let low := x.interval.1 * quarter
  let high := x.interval.2 * quarter
  if x.significand % 2 = 0 then low ≤ value ∧ value ≤ high else low < value ∧ value < high

instance (ten quarter multiple : Nat) : Decidable (x.ReadsBack ten quarter multiple) := by
  unfold ReadsBack
  exact inferInstanceAs (Decidable (ite _ _ _))

/-- The multiple of `10 ^ place` that reads back as the number and is nearest to it, if one reads
back. -/
def nearestOn? (place : Int) : Option Nat :=
  let (ten, quarter) := proportion place (x.exponent - 2)
  let value := 4 * x.significand * quarter
  let below := value / ten
  let above := below + 1
  let toBelow := value - below * ten
  let toAbove := above * ten - value
  if x.ReadsBack ten quarter below then
    if x.ReadsBack ten quarter above then
      if toBelow < toAbove then some below
      else if toAbove < toBelow then some above
      else if below % 2 = 0 then some below else some above
    else some below
  else if x.ReadsBack ten quarter above then some above else none

/-- The decimal places that are tried: from above the largest finite number down to below the
least positive one by seventeen digits. -/
def places : List Int :=
  (List.range 660).map fun step => 310 - Int.ofNat step

/-- The shortest decimal that reads back as the number, sign apart. -/
def shortest : Scaled :=
  if x.significand = 0 then ⟨0, 0⟩
  else (places.findSome? fun place => (x.nearestOn? place).map (⟨·, place⟩)).getD ⟨0, 0⟩

end Dyadic
end AllPairs.Decimal
