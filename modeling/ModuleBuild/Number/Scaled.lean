import ModuleBuild.Number.Binary

/-!
# Reading decimal numbers

A decimal number is a significand of at most 64 bits and a power of ten. It is read by rounding the
significand and then multiplying by, or dividing by, the magnitude nearest to the power of ten. The
result is exact for short numbers; for long ones each of the steps rounds, and the last digit of the
result may differ from that of the nearest magnitude.
-/

namespace ModuleBuild.Number

/-- The greatest power of ten within the range of magnitudes. -/
def greatestTenPower : Nat := 308

/-- The magnitude nearest to `10 ^ n`. -/
def tenPower? (n : Nat) : Option Magnitude := Magnitude.nearest? (tenPower n) 1

/-- Multiplies by `10 ^ exponent`. Behind the range of powers of ten, a negative exponent is worked
off in steps, and a positive one is too large unless the number is zero. -/
def scale? (m : Magnitude) (exponent : Int) : Option Magnitude :=
  if _h : exponent.natAbs ≤ greatestTenPower then
    (tenPower? exponent.natAbs).bind fun t => if 0 ≤ exponent then m.mul? t else m.div? t
  else if m.significand = 0 then some m
  else if 0 ≤ exponent then none
  else
    (tenPower? greatestTenPower).bind fun t =>
      (m.div? t).bind fun m => scale? m (exponent + greatestTenPower)
termination_by exponent.natAbs
decreasing_by
  have : greatestTenPower = 308 := rfl
  omega

/-- The magnitude read from `significand * 10 ^ exponent`. -/
def ofDecimal? (significand : Nat) (exponent : Int) : Option Magnitude :=
  (Magnitude.nearest? significand 1).bind (scale? · exponent)

/-- The greatest significand that is kept while reading. -/
def greatestSignificand : Nat := twoPower 64 - 1

/-- The value of a decimal digit. -/
def digitValue (c : Char) : Nat := c.toNat - '0'.toNat

/-- Appends decimal digits to a significand as long as it stays in range; the digits from the first
one that does not fit are left over. -/
def appendDigits (significand : Nat) : List Char → Nat × List Char
  | [] => (significand, [])
  | c :: cs =>
    let longer := significand * 10 + digitValue c
    if longer ≤ greatestSignificand then appendDigits longer cs else (significand, c :: cs)

end ModuleBuild.Number
