import Mathlib.Data.List.Basic
import Mathlib.Data.List.DropRight
import ModuleBuild.Source.LineTable

/-!
# Finding lines

The starts of the lines before an offset come first in a line table, and the search ends at the last
of them. So the line of a place in a text is the number of line feeds before it, and its column is the
number of characters behind the last of these.

Main statements: `LineTable.search_eq`, which is the invariant of the search; `position_append`, which
says what a table answers; and `precedes_append`, by which later places come later in the order of
lines and columns.
-/

namespace ModuleBuild

open Text

namespace LineTable

/-! ## The starts of lines -/

variable {offset : Nat}

theorem startsBehind_append (cs ds : List Char) :
    startsBehind offset (cs ++ ds) =
      startsBehind offset cs ++ startsBehind (offset + byteLength cs) ds := by
  induction cs generalizing offset with
  | nil => rfl
  | cons c cs ih =>
    rw [List.cons_append, startsBehind, startsBehind, ih, byteLength_cons, Nat.add_assoc]
    split <;> rfl

/-- Lines begin behind their line feeds and in the text. -/
theorem lt_and_le_of_mem_startsBehind {cs : List Char} {n : Nat} (h : n ∈ startsBehind offset cs) :
    offset < n ∧ n ≤ offset + byteLength cs := by
  induction cs generalizing offset with
  | nil => simp [startsBehind] at h
  | cons c cs ih =>
    have hpos := c.utf8Size_pos
    have hrest : n ∈ startsBehind (offset + c.utf8Size) cs →
        offset < n ∧ n ≤ offset + byteLength (c :: cs) := by
      intro hmem
      have hbounds := ih hmem
      rw [byteLength_cons]
      omega
    rw [startsBehind] at h
    split at h
    · rcases List.mem_cons.mp h with rfl | h
      · rw [byteLength_cons]
        omega
      · exact hrest h
    · exact hrest h

theorem length_startsBehind (cs : List Char) : (startsBehind offset cs).length = cs.count '\n' := by
  induction cs generalizing offset with
  | nil => rfl
  | cons c cs ih =>
    rw [startsBehind, List.count_cons]
    split
    · next h => simp [h, ih]
    · next h => simp [h, ih]

theorem getLast_startsBehind (cs : List Char) :
    (0 :: startsBehind 0 cs).getLast? = some (byteLength (cs.rdropWhile (· != '\n'))) := by
  induction cs using List.reverseRecOn with
  | nil => rfl
  | append_singleton cs c ih =>
    rw [startsBehind_append, Nat.zero_add]
    by_cases hc : c = '\n'
    · subst hc
      have hlast : startsBehind (byteLength cs) ['\n'] = [byteLength (cs ++ ['\n'])] := by
        simp [startsBehind]
      rw [hlast, List.rdropWhile_concat_neg _ _ _ (by simp), ← List.cons_append,
        List.getLast?_concat]
    · have hlast : startsBehind (byteLength cs) [c] = [] := by simp [startsBehind, hc]
      rw [hlast, List.append_nil, List.rdropWhile_concat_pos _ _ _ (by simpa using hc), ih]

/-! ## The search -/

/-- A line begins at or before the offset exactly if its start is among the first ones. -/
theorem any_starts_iff (t : LineTable) {before behind : List Nat}
    (hstarts : t.starts.toList = before ++ behind) (hbefore : ∀ n ∈ before, n ≤ offset)
    (hbehind : ∀ n ∈ behind, offset < n) {line : Nat} (hline : line < t.starts.size) :
    t.starts[line]?.any (· ≤ offset) = true ↔ line < before.length := by
  rw [← Array.getElem?_toList, hstarts]
  by_cases hfirst : line < before.length
  · have hle := hbefore before[line] (List.getElem_mem hfirst)
    rw [List.getElem?_append_left hfirst, List.getElem?_eq_getElem hfirst]
    simpa [hfirst] using hle
  · have hrest : line - before.length < behind.length := by
      rw [← Array.length_toList, hstarts, List.length_append] at hline
      omega
    have hlt := hbehind behind[line - before.length] (List.getElem_mem hrest)
    rw [List.getElem?_append_right (Nat.not_lt.mp hfirst), List.getElem?_eq_getElem hrest]
    simpa [hfirst] using hlt

/-- Whatever the window, the search ends at the last line that begins at or before the offset, if that
line is in the window. -/
theorem search_eq (t : LineTable) {before behind : List Nat}
    (hstarts : t.starts.toList = before ++ behind) (hbefore : ∀ n ∈ before, n ≤ offset)
    (hbehind : ∀ n ∈ behind, offset < n) {low high : Nat} (hlow : low < before.length)
    (hhigh : before.length ≤ high) (hsize : high ≤ t.starts.size) :
    t.search offset low high = before.length - 1 := by
  fun_induction search t offset low high with
  | case1 low high hwide middle hfirst ih =>
    have hmiddle : middle < t.starts.size := by omega
    exact ih ((t.any_starts_iff hstarts hbefore hbehind hmiddle).mp hfirst) hhigh hsize
  | case2 low high hwide middle hfirst ih =>
    have hmiddle : middle < t.starts.size := by omega
    have hrest := mt (t.any_starts_iff hstarts hbefore hbehind hmiddle).mpr hfirst
    exact ih hlow (Nat.not_lt.mp hrest) (by omega)
  | case3 low high hnarrow => omega

/-! ## Places in a text -/

variable {text : String} {before after : List Char}

theorem toList_starts_ofText (h : text.toList = before ++ after) :
    (ofText text).starts.toList =
      (0 :: startsBehind 0 before) ++ startsBehind (byteLength before) after := by
  rw [ofText, List.toList_toArray, h, startsBehind_append, Nat.zero_add, List.cons_append]

theorem lineOf_byteLength (h : text.toList = before ++ after) :
    (ofText text).lineOf (byteLength before) = before.count '\n' := by
  have hstarts := toList_starts_ofText h
  have hsize : (ofText text).starts.size =
      (startsBehind 0 before).length + 1 + (startsBehind (byteLength before) after).length := by
    rw [← Array.length_toList, hstarts, List.length_append, List.length_cons]
  have hbefore : ∀ n ∈ 0 :: startsBehind 0 before, n ≤ byteLength before := by
    intro n hn
    rcases List.mem_cons.mp hn with rfl | hn
    · exact Nat.zero_le _
    · have hbounds := lt_and_le_of_mem_startsBehind hn
      omega
  have hbehind : ∀ n ∈ startsBehind (byteLength before) after, byteLength before < n :=
    fun n hn => (lt_and_le_of_mem_startsBehind hn).1
  rw [lineOf, search_eq _ hstarts hbefore hbehind (by simp) (by simp; omega) le_rfl,
    List.length_cons, length_startsBehind, Nat.add_sub_cancel]

theorem startOf_count (h : text.toList = before ++ after) :
    (ofText text).startOf (before.count '\n') = byteLength (before.rdropWhile (· != '\n')) := by
  have hlast := getLast_startsBehind before
  rw [List.getLast?_eq_getElem?, List.length_cons, Nat.add_sub_cancel,
    length_startsBehind] at hlast
  have hline : before.count '\n' < (0 :: startsBehind 0 before).length := by
    rw [List.length_cons, length_startsBehind]
    exact Nat.lt_succ_self _
  rw [startOf, ← Array.getElem?_toList, toList_starts_ofText h, List.getElem?_append_left hline, hlast,
    Option.getD_some]

/-- The line and the column of a place are the number of line feeds before it and the number of
characters behind the last of them. -/
theorem position_append (h : text.toList = before ++ after) :
    (ofText text).position text (byteLength before) =
      (before.count '\n', (before.rtakeWhile (· != '\n')).length) := by
  have hmin : min (byteLength before) (byteLength text.toList) = byteLength before := by
    rw [h, byteLength_append]
    omega
  have hsplit := List.rdropWhile_append_rtakeWhile (p := (· != '\n')) (l := before)
  have hslice : slice? text.toList (byteLength (before.rdropWhile (· != '\n'))) (byteLength before) =
      some (before.rtakeWhile (· != '\n')) := by
    have hlength := congrArg byteLength hsplit
    rw [byteLength_append] at hlength
    rw [h, ← hlength]
    conv_lhs => rw [← hsplit]
    rw [List.append_assoc, hsplit]
    exact slice?_append ..
  simp only [position, hmin, lineOf_byteLength h, startOf_count h, hslice]

/-- Without a line feed, text goes on with the line before it. -/
theorem rtakeWhile_append_of_not_mem {between : List Char} (hfeed : '\n' ∉ between) :
    (before ++ between).rtakeWhile (· != '\n') = before.rtakeWhile (· != '\n') ++ between := by
  have hline : ∀ c ∈ between.reverse, (c != '\n') = true := by
    intro c hc
    simpa using ne_of_mem_of_not_mem (List.mem_reverse.mp hc) hfeed
  rw [List.rtakeWhile, List.rtakeWhile, List.reverse_append, List.takeWhile_append_of_pos hline,
    List.reverse_append, List.reverse_reverse]

/-- Text behind a place goes on to a later line, or makes the column larger by its length. -/
theorem count_lt_or_length_append (before between : List Char) :
    before.count '\n' < (before ++ between).count '\n' ∨
      before.count '\n' = (before ++ between).count '\n' ∧
        ((before ++ between).rtakeWhile (· != '\n')).length =
          (before.rtakeWhile (· != '\n')).length + between.length := by
  rw [List.count_append]
  by_cases hfeed : '\n' ∈ between
  · have hpos := List.count_pos_iff.mpr hfeed
    exact Or.inl (by omega)
  · have hzero := List.count_eq_zero.mpr hfeed
    exact Or.inr ⟨by omega, by rw [rtakeWhile_append_of_not_mem hfeed, List.length_append]⟩

/-- Later places come later in the order of lines and columns. -/
theorem precedes_append (before between : List Char) :
    before.count '\n' < (before ++ between).count '\n' ∨
      before.count '\n' = (before ++ between).count '\n' ∧
        (before.rtakeWhile (· != '\n')).length ≤
          ((before ++ between).rtakeWhile (· != '\n')).length := by
  refine (count_lt_or_length_append before between).imp_right ?_
  rintro ⟨hcount, hlength⟩
  exact ⟨hcount, by omega⟩

end LineTable

end ModuleBuild
