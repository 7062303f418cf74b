import ModuleBuild.Number.Binary

/-!
# Writing decimal numbers

A magnitude is written with the fewest decimal digits that are still nearer to it than to any other
magnitude, and of these with the digits nearest to it. For each number of digits only the two
neighbours on that decimal grid need a look: if any point of the grid rounds to the magnitude, so
does one of them.
-/

namespace ModuleBuild.Number

/-- The number `digits * 10 ^ exponent`. -/
structure Decimal where
  /-- The digits as a number. -/
  digits : Nat
  /-- The weight of the last digit. -/
  exponent : Int
  deriving DecidableEq, Repr

namespace Decimal

/-- The numerator of the exact value as a quotient. -/
def numerator (d : Decimal) : Nat := d.digits * tenPower d.exponent.toNat

/-- The denominator of the exact value as a quotient. -/
def denominator (d : Decimal) : Nat := tenPower (-d.exponent).toNat

/-- The same number without zeros at its end; there are at most `fuel` of them. -/
def trim (d : Decimal) : (fuel : Nat) → Decimal
  | 0 => d
  | fuel + 1 =>
    if d.digits ≠ 0 ∧ d.digits % 10 = 0 then trim ⟨d.digits / 10, d.exponent + 1⟩ fuel else d

end Decimal

namespace Magnitude

/-- Whether a decimal number lies among the numbers that round to `m`: between the points half way
to its neighbours, which count if the significand is even. -/
def roundsFrom (m : Magnitude) (d : Decimal) : Bool :=
  let s := m.significand
  -- all numbers are compared in quarters of the last binary digit
  let quarters := d.numerator * m.denominator * 4
  let unit := d.denominator * twoPower m.exponent.toNat
  let below := if s = twoPower (precision - 1) ∧ leastExponent < m.exponent then 4 * s - 1 else 4 * s - 2
  let above := 4 * s + 2
  if s % 2 = 0 then below * unit ≤ quarters && quarters ≤ above * unit
  else below * unit < quarters && quarters < above * unit

/-- The exponent of the greatest power of ten that is at most `m`, which is not zero. Magnitudes
have at most 324 zeros behind the point. -/
def decimalOrder (m : Magnitude) : Int :=
  let shifted := m.numerator * tenPower 330 / m.denominator
  ((Nat.toDigits 10 shifted).length : Int) - 331

/-- The two neighbours of `m` on the grid with weight `10 ^ exponent`, the nearer one first and of
two equally near ones the even one. -/
def neighbours (m : Magnitude) (exponent : Int) : Decimal × Decimal :=
  let a := m.numerator * tenPower (-exponent).toNat
  let b := m.denominator * tenPower exponent.toNat
  let low : Decimal := ⟨a / b, exponent⟩
  let high : Decimal := ⟨a / b + 1, exponent⟩
  if roundHalfEven a b = a / b then (low, high) else (high, low)

/-- The shortest decimal number with at least `count` digits; at most `fuel` more are tried. Seventeen
digits always suffice. -/
def shortestFrom (m : Magnitude) (count : Nat) : (fuel : Nat) → Decimal
  | 0 => (m.neighbours (m.decimalOrder + 1 - count)).1
  | fuel + 1 =>
    let (first, second) := m.neighbours (m.decimalOrder + 1 - count)
    if m.roundsFrom first then first
    else if m.roundsFrom second then second
    else shortestFrom m (count + 1) fuel

/-- The shortest decimal number that rounds to a magnitude other than zero. -/
def shortest (m : Magnitude) : Decimal := (m.shortestFrom 1 16).trim 20

end Magnitude

end ModuleBuild.Number
