/-
Module: PatchShelf.Fraction
Purpose: Fractions, and their nearest neighbours with 53 binary digits.
Main exports:
  Fraction, Fraction.plus, Fraction.minus, Fraction.times, Fraction.divide,
  Fraction.wholePart, Fraction.afterPoint, Fraction.round, Fraction.nearest
-/

/-!
A measured quantity is kept as a binary fraction with 53 significant digits.
`nearest` picks the closest such fraction to an exact one; of two that are
equally close it takes the one whose last digit is zero.  All arithmetic is
exact arithmetic on natural numbers.
-/

namespace PatchShelf

/-- A fraction that is not negative. -/
structure Fraction where
  numerator : Nat
  denominator : Nat
  positive : 0 < denominator
deriving Repr

namespace Fraction

/-- A quotient of natural numbers. -/
def ofQuotient (numerator denominator : Nat) (positive : 0 < denominator) : Fraction :=
  ⟨numerator, denominator, positive⟩

/-- The sum of two fractions. -/
def plus (one other : Fraction) : Fraction :=
  ⟨one.numerator * other.denominator + other.numerator * one.denominator,
    one.denominator * other.denominator, Nat.mul_pos one.positive other.positive⟩

/-- A fraction without a smaller one. -/
def minus (one other : Fraction) : Fraction :=
  ⟨one.numerator * other.denominator - other.numerator * one.denominator,
    one.denominator * other.denominator, Nat.mul_pos one.positive other.positive⟩

/-- A fraction times a natural number. -/
def times (fraction : Fraction) (factor : Nat) : Fraction :=
  ⟨fraction.numerator * factor, fraction.denominator, fraction.positive⟩

/-- A fraction divided by a natural number. -/
def divide (fraction : Fraction) (divisor : Nat) (positive : 0 < divisor) : Fraction :=
  ⟨fraction.numerator, fraction.denominator * divisor,
    Nat.mul_pos fraction.positive positive⟩

/-- The fraction without what comes after the point. -/
def wholePart (fraction : Fraction) : Nat :=
  fraction.numerator / fraction.denominator

/-- What comes after the point of a fraction. -/
def afterPoint (fraction : Fraction) : Fraction :=
  ⟨fraction.numerator % fraction.denominator, fraction.denominator, fraction.positive⟩

/-- A fraction times a power of two. -/
def shift (fraction : Fraction) (exponent : Int) : Fraction :=
  ⟨fraction.numerator * Nat.pow 2 exponent.toNat,
    fraction.denominator * Nat.pow 2 (-exponent).toNat,
    Nat.mul_pos fraction.positive (Nat.two_pow_pos _)⟩

/-- The natural number closest to a fraction; halfway it is the even one. -/
def round (fraction : Fraction) : Nat :=
  let whole := fraction.numerator / fraction.denominator
  let rest := fraction.numerator % fraction.denominator
  if 2 * rest < fraction.denominator then whole
  else if fraction.denominator < 2 * rest then whole + 1
  else whole + whole % 2

/-- The greatest exponent of a power of two that is not above the fraction. -/
def order (fraction : Fraction) : Int :=
  let guess : Int := Nat.log2 fraction.numerator - Nat.log2 fraction.denominator
  if (fraction.shift (-guess)).denominator ≤ (fraction.shift (-guess)).numerator then guess
  else guess - 1

/-- The number of binary digits that are kept. -/
def precision : Int := 53

/-- The closest fraction with 53 significant binary digits; halfway it is the one
whose last digit is zero. -/
def nearest (fraction : Fraction) : Fraction :=
  let exponent := precision - 1 - fraction.order
  (ofQuotient (fraction.shift exponent).round 1 Nat.one_pos).shift (-exponent)

end Fraction

end PatchShelf
