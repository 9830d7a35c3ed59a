/-!
The exact value of a binary floating point number: a sign, a natural number and a power of two.
Everything that is written about a number is computed from this form with whole numbers only.
-/

namespace AllPairs.Decimal

/-- The number `significand * 2 ^ exponent` with a sign, which zero has too. -/
structure Dyadic where
  negative : Bool
  significand : Nat
  exponent : Int
deriving DecidableEq

namespace Dyadic

/-- The bit in front of the 52 bits of the fraction, which is not stored. -/
def leadingBit : Nat := 0x10000000000000

/-- The value with the given 64-bit pattern: one bit of sign, eleven of exponent and 52 of
fraction. None for infinities and for patterns that are no number. -/
def ofBits? (bits : Nat) : Option Dyadic :=
  let negative := bits / 0x8000000000000000 % 2 == 1
  let biased : Nat := bits / leadingBit % 2048
  let fraction := bits % leadingBit
  if biased = 2047 then none
  else if biased = 0 then some ⟨negative, fraction, -1074⟩
  else some ⟨negative, leadingBit + fraction, Int.ofNat biased - 1075⟩

/-- The value of a finite number. -/
def ofFloat? (x : Float) : Option Dyadic :=
  ofBits? x.toBits.toNat

/-- The number below is half as far as the number above, as after a power of two. -/
def NarrowBelow (x : Dyadic) : Prop :=
  x.significand = leadingBit ∧ -1074 < x.exponent

instance (x : Dyadic) : Decidable x.NarrowBelow :=
  inferInstanceAs (Decidable (_ ∧ _))

end Dyadic
end AllPairs.Decimal
