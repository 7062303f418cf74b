import ModuleBuild.Token.Piece
import Mathlib.Data.List.Basic

/-!
# Classes of characters

What a piece of source text is depends on its first characters, and the classes in question are
disjoint: a blank begins nothing else, and neither a digit nor a mark begins a name.

Main statements: `isBlank_eq_false` and `isBlank_eq_false_of_startsName`, by which only blanks are
blank; and `startsName_eq_false_of_lt`, by which names begin with letters and three further marks.
-/

namespace ModuleBuild

namespace Text

/-- There are no blanks between the space and the last ASCII character. -/
theorem isBlank_eq_false {c : Char} (hlow : 33 ≤ c.toNat) (hhigh : c.toNat ≤ 126) :
    isBlank c = false := by
  by_contra hblank
  rw [Bool.not_eq_false] at hblank
  obtain ⟨r, hr, hle, hge⟩ := exists_range_of_inRanges hblank
  have hapart : ∀ r ∈ blankRanges, r.2 < 33 ∨ 126 < r.1 := by decide
  rcases hapart r hr with h | h <;> omega

/-- Letters begin behind the ASCII digits. -/
theorem isAlphabetic_eq_false_of_lt {c : Char} (h : c.toNat < 65) : isAlphabetic c = false := by
  rw [isAlphabetic, alphabeticRanges, inRanges, if_pos h]

/-- Code points in one of two disjoint sets are not in the other. -/
theorem inRanges_eq_false_of_disjoint {ranges others : List (Nat × Nat)}
    (hdisjoint : ∀ r ∈ ranges, ∀ i < r.2 + 1 - r.1, inRanges (r.1 + i) others = false) {n : Nat}
    (h : inRanges n ranges = true) : inRanges n others = false := by
  obtain ⟨r, hr, hle, hge⟩ := exists_range_of_inRanges h
  have hnone := hdisjoint r hr (n - r.1) (by omega)
  rwa [Nat.add_sub_cancel' hle] at hnone

/-- No blank is a letter. -/
theorem isAlphabetic_eq_false_of_isBlank {c : Char} (h : isBlank c = true) :
    isAlphabetic c = false :=
  inRanges_eq_false_of_disjoint (by decide +kernel) h

/-- No blank is a number. -/
theorem isNumeric_eq_false_of_isBlank {c : Char} (h : isBlank c = true) : isNumeric c = false :=
  inRanges_eq_false_of_disjoint (by decide +kernel) h

/-- Blanks are controls or lie behind ASCII, the space apart. -/
theorem toNat_of_isBlank {c : Char} (h : isBlank c = true) : c.toNat < 33 ∨ 126 < c.toNat := by
  by_contra hmark
  rw [isBlank_eq_false (by omega) (by omega)] at h
  cases h

theorem isAlphanum_eq_false_of_isBlank {c : Char} (h : isBlank c = true) : c.isAlphanum = false := by
  have hrange := toNat_of_isBlank h
  have hdefinition : c.isAlphanum = ((decide ('A'.val ≤ c.val ∧ c.val ≤ 'Z'.val) ||
      (decide ('a'.val ≤ c.val) && decide (c.val ≤ 'z'.val))) ||
        (decide ('0'.val ≤ c.val) && decide (c.val ≤ '9'.val))) := rfl
  have hval : c.val.toNat = c.toNat := rfl
  by_contra hletter
  simp only [hdefinition, Bool.not_eq_false, Bool.or_eq_true, Bool.and_eq_true, decide_eq_true_eq,
    UInt32.le_iff_toNat_le, hval, Char.reduceVal, UInt32.reduceToNat] at hletter
  omega

end Text

open Text

namespace Piece

variable {c : Char}

theorem toNat_of_isDigit (h : c.isDigit = true) : 48 ≤ c.toNat ∧ c.toNat ≤ 57 := by
  simp only [Char.isDigit, Bool.and_eq_true, decide_eq_true_eq] at h
  exact ⟨h.1, h.2⟩

/-- Below the letters, only two marks begin a name. -/
theorem startsName_eq_false_of_lt (h : c.toNat < 65) (hdollar : c ≠ '$') (hhash : c ≠ '#') :
    startsName c = false := by
  have hlow : c ≠ '_' := by
    rintro rfl
    exact absurd h (by decide)
  simp [startsName, isAlphabetic_eq_false_of_lt h, hlow, hdollar, hhash]

theorem startsName_eq_false_of_isDigit (h : c.isDigit = true) : startsName c = false := by
  have hrange := toNat_of_isDigit h
  refine startsName_eq_false_of_lt (by omega) ?_ ?_
  · rintro rfl
    exact absurd h (by decide)
  · rintro rfl
    exact absurd h (by decide)

theorem isBlank_eq_false_of_startsName (h : startsName c = true) : isBlank c = false := by
  by_contra hblank
  rw [Bool.not_eq_false] at hblank
  have hletter := isAlphabetic_eq_false_of_isBlank hblank
  have hmark : c = '_' ∨ c = '$' ∨ c = '#' := by simpa [startsName, hletter, or_assoc] using h
  rcases hmark with rfl | rfl | rfl <;> exact absurd hblank (by decide)

theorem isBlank_eq_false_of_isDigit (h : c.isDigit = true) : isBlank c = false := by
  have hrange := toNat_of_isDigit h
  exact isBlank_eq_false (by omega) (by omega)

theorem isBlank_eq_false_of_isAsciiPunctuation (h : isAsciiPunctuation c = true) :
    isBlank c = false := by
  simp only [isAsciiPunctuation, Bool.or_eq_true, Bool.and_eq_true, decide_eq_true_eq] at h
  exact isBlank_eq_false (by omega) (by omega)

theorem isDigit_eq_false_of_isAsciiPunctuation (h : isAsciiPunctuation c = true) :
    c.isDigit = false := by
  by_contra hdigit
  have hrange := toNat_of_isDigit (by simpa using hdigit)
  simp only [isAsciiPunctuation, Bool.or_eq_true, Bool.and_eq_true, decide_eq_true_eq] at h
  omega

theorem isAsciiPunctuation_eq_false_of_isNumeric (h : isNumeric c = true) :
    isAsciiPunctuation c = false := by
  obtain ⟨r, hr, hle, hge⟩ := exists_range_of_inRanges h
  have hapart : ∀ r ∈ numericRanges, r = (48, 57) ∨ 126 < r.1 := by decide +kernel
  by_contra hmark
  simp only [Bool.not_eq_false, isAsciiPunctuation, Bool.or_eq_true, Bool.and_eq_true,
    decide_eq_true_eq] at hmark
  rcases hapart r hr with rfl | hlow
  · dsimp only at hle hge
    omega
  · omega

end Piece

end ModuleBuild
