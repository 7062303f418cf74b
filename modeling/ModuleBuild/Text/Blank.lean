import ModuleBuild.Text.Ranges

/-!
# Blank characters

The characters with the Unicode property `White_Space`: the five controls from tab to carriage
return, the space, and the separators. A byte order mark, a zero-width space and the Mongolian
vowel separator are not among them.
-/

namespace ModuleBuild.Text

/-- The code points with the property `White_Space`. -/
def blankRanges : List (Nat × Nat) :=
  [
    (0x0009, 0x000d), (0x0020, 0x0020), (0x0085, 0x0085), (0x00a0, 0x00a0), (0x1680, 0x1680),
    (0x2000, 0x200a), (0x2028, 0x2029), (0x202f, 0x202f), (0x205f, 0x205f), (0x3000, 0x3000)
  ]

/-- Whether a character separates tokens without being part of one. -/
def isBlank (c : Char) : Bool := inRanges c.toNat blankRanges

example : isBlank '\u00a0' = true ∧ isBlank '\u3000' = true := by decide
example : isBlank '\ufeff' = false ∧ isBlank '\u200b' = false := by decide

end ModuleBuild.Text
