/-!
# Binary floating-point numbers

A magnitude is a finite non-negative binary64 number, held as significand and exponent.
`nearest?` rounds a quotient of natural numbers to the nearest magnitude, a tie to the even
significand; a quotient too large for the format has none. Sums, products and quotients of magnitudes
are the rounded exact ones.
-/

namespace ModuleBuild.Number

/-- The number `significand * 2 ^ exponent`. -/
structure Magnitude where
  /-- At most 53 binary digits; exactly 53 unless the exponent is the least one. -/
  significand : Nat
  /-- The weight of the last binary digit. -/
  exponent : Int
  deriving DecidableEq, Repr

/-- A power of two. -/
def twoPower (n : Nat) : Nat := Nat.pow 2 n

/-- A power of ten. -/
def tenPower (n : Nat) : Nat := Nat.pow 10 n

/-- `a / b` rounded to the nearest natural number, a tie to the even one. -/
def roundHalfEven (a b : Nat) : Nat :=
  let q := a / b
  let r := a % b
  if 2 * r < b then q else if b < 2 * r then q + 1 else q + q % 2

/-- The exponent of the greatest power of two that is at most `a / b`. -/
def binaryOrder (a b : Nat) : Int :=
  let e : Int := (a.log2 : Int) - b.log2
  let reached := if 0 ≤ e then b * twoPower e.toNat ≤ a else b ≤ a * twoPower (-e).toNat
  if reached then e else e - 1

namespace Magnitude

/-- The number of binary digits of a significand. -/
def precision : Nat := 53

/-- The least exponent. -/
def leastExponent : Int := -1074

/-- The greatest exponent. -/
def greatestExponent : Int := 971

/-- Zero. -/
def zero : Magnitude := ⟨0, leastExponent⟩

/-- The magnitude nearest to `a / b`. -/
def nearest? (a b : Nat) : Option Magnitude :=
  if a = 0 then some zero
  else
    let exponent := max (binaryOrder a b - (precision - 1 : Nat)) leastExponent
    let significand :=
      if 0 ≤ exponent then roundHalfEven a (b * twoPower exponent.toNat)
      else roundHalfEven (a * twoPower (-exponent).toNat) b
    let rounded : Magnitude :=
      if significand = twoPower precision then ⟨twoPower (precision - 1), exponent + 1⟩
      else ⟨significand, exponent⟩
    if greatestExponent < rounded.exponent then none else some rounded

/-- The numerator of the exact value as a quotient. -/
def numerator (m : Magnitude) : Nat := m.significand * twoPower m.exponent.toNat

/-- The denominator of the exact value as a quotient. -/
def denominator (m : Magnitude) : Nat := twoPower (-m.exponent).toNat

/-- Whether one magnitude is less than another. -/
def less (m n : Magnitude) : Bool :=
  m.numerator * n.denominator < n.numerator * m.denominator

/-- The rounded sum. -/
def add? (m n : Magnitude) : Option Magnitude :=
  nearest? (m.numerator * n.denominator + n.numerator * m.denominator) (m.denominator * n.denominator)

/-- The rounded product. -/
def mul? (m n : Magnitude) : Option Magnitude :=
  nearest? (m.numerator * n.numerator) (m.denominator * n.denominator)

/-- The rounded quotient by a magnitude that is not zero. -/
def div? (m n : Magnitude) : Option Magnitude :=
  nearest? (m.numerator * n.denominator) (m.denominator * n.numerator)

end Magnitude

end ModuleBuild.Number
