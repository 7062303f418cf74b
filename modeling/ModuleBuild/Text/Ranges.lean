/-!
# Sets of code points

A property of characters is stored as the ascending list of the closed ranges of code points that
have it. Because the list ascends, a lookup stops at the first range that starts above the code
point.
-/

namespace ModuleBuild.Text

/-- Whether `n` lies in one of the closed ranges, which are listed in ascending order. -/
def inRanges (n : Nat) : List (Nat × Nat) → Bool
  | [] => false
  | (low, high) :: rest => if n < low then false else n ≤ high || inRanges n rest

/-- A set of code points holds `n` only if one of its ranges does. -/
theorem exists_range_of_inRanges {n : Nat} {ranges : List (Nat × Nat)}
    (h : inRanges n ranges = true) : ∃ r ∈ ranges, r.1 ≤ n ∧ n ≤ r.2 := by
  induction ranges with
  | nil => simp [inRanges] at h
  | cons r rest ih =>
    obtain ⟨low, high⟩ := r
    by_cases hl : n < low
    · simp [inRanges, hl] at h
    · simp only [inRanges, hl, if_false, Bool.or_eq_true, decide_eq_true_eq] at h
      rcases h with h | h
      · exact ⟨(low, high), by simp, by simpa using hl, h⟩
      · obtain ⟨r, hr, hb⟩ := ih h
        exact ⟨r, by simp [hr], hb⟩

end ModuleBuild.Text
