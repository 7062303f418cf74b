import Mathlib.Data.Prod.Lex
import Mathlib.Order.Monotone.Basic
import ModuleBuild.Proofs.Source.LineTable
import ModuleBuild.Proofs.Token.Places

/-!
# Looking up places

A sorted list is searched for a number, and the answer is either an index at which the number stands or
the index at which it would have to be inserted. When the starts of lines are searched for an offset,
the line of the offset is that index in the first case and the one before it in the second, where there
is always one before it, because the first line begins at zero.

Main statements: `Finds.line?_eq`, by which any such search ends at the line that the table finds; and
`position_counts`, which says what a table answers, and that nothing can go wrong on the way.
-/

namespace ModuleBuild.LineTable

open Text

/-! ## Searching the starts of lines -/

theorem pairwise_startsBehind (offset : Nat) (cs : List Char) :
    (startsBehind offset cs).Pairwise (· < ·) := by
  induction cs generalizing offset with
  | nil => exact List.Pairwise.nil
  | cons c cs ih =>
    rw [startsBehind]
    split
    · exact List.Pairwise.cons (fun n hn => (lt_and_le_of_mem_startsBehind hn).1) (ih _)
    · exact ih _

theorem pairwise_starts_ofText (text : String) :
    (ofText text).starts.toList.Pairwise (· < ·) := by
  rw [ofText, List.toList_toArray]
  refine List.Pairwise.cons (fun n hn => ?_) (pairwise_startsBehind _ _)
  exact (lt_and_le_of_mem_startsBehind hn).1

/-- What a search for an offset among the starts of lines may answer: a line that begins there, or the
number of lines that begin before it where none begins there. -/
inductive Finds (t : LineTable) (offset : Nat) : Except Nat Nat → Prop where
  | found {line : Nat} (h : t.starts[line]? = some offset) : Finds t offset (.ok line)
  | missing {next : Nat} (hsize : next ≤ t.starts.size)
      (hbefore : ∀ n ∈ t.starts.toList.take next, n < offset)
      (hbehind : ∀ n ∈ t.starts.toList.drop next, offset < n) : Finds t offset (.error next)

/-- An ascending list is cut in two by a number: what is below it comes first. -/
theorem exists_append_of_pairwise {ns : List Nat} (hsorted : ns.Pairwise (· < ·)) (m : Nat) :
    ∃ below above, ns = below ++ above ∧ (∀ n ∈ below, n < m) ∧ ∀ n ∈ above, m ≤ n := by
  induction ns with
  | nil => exact ⟨[], [], rfl, by simp, by simp⟩
  | cons first rest ih =>
    obtain ⟨hfirst, hrest⟩ := List.pairwise_cons.mp hsorted
    by_cases hlt : first < m
    · obtain ⟨below, above, rfl, hbelow, habove⟩ := ih hrest
      exact ⟨first :: below, above, rfl, List.forall_mem_cons.mpr ⟨hlt, hbelow⟩, habove⟩
    · refine ⟨[], first :: rest, rfl, by simp, ?_⟩
      intro n hn
      rcases List.mem_cons.mp hn with rfl | hn
      · exact Nat.not_lt.mp hlt
      · have hle := hfirst n hn
        omega

/-- A search always has an answer. -/
theorem exists_finds (text : String) (offset : Nat) : ∃ answer, (ofText text).Finds offset answer := by
  have hsorted := pairwise_starts_ofText text
  obtain ⟨below, above, hsplit, hbelow, habove⟩ := exists_append_of_pairwise hsorted offset
  generalize ofText text = t at hsorted hsplit ⊢
  by_cases hhead : above.head? = some offset
  · refine ⟨.ok below.length, .found ?_⟩
    rw [← Array.getElem?_toList, hsplit, List.getElem?_append_right le_rfl, Nat.sub_self,
      ← List.head?_eq_getElem?, hhead]
  · have hbehind : ∀ n ∈ above, offset < n := by
      cases above with
      | nil => simp
      | cons first rest =>
        have hfirst : offset < first :=
          Nat.lt_of_le_of_ne (habove first (List.mem_cons_self ..)) fun heq => hhead (by rw [heq]; rfl)
        have hrest := (List.pairwise_cons.mp (List.pairwise_append.mp (hsplit ▸ hsorted)).2.1).1
        exact List.forall_mem_cons.mpr ⟨hfirst, fun n hn => hfirst.trans (hrest n hn)⟩
    refine ⟨.error below.length, .missing ?_ ?_ ?_⟩
    · rw [← Array.length_toList, hsplit, List.length_append]
      exact Nat.le_add_right ..
    · rwa [hsplit, List.take_left]
    · rwa [hsplit, List.drop_left]

/-- The line that an answer stands for; none where zero lines would have to be one less. -/
def line? : Except Nat Nat → Option Nat
  | .ok line => some line
  | .error next => if 0 < next then some (next - 1) else none

/-- The starts up to the line of an answer, and no others, are at or before the offset. -/
theorem Finds.exists_split {t : LineTable} {offset : Nat} {answer : Except Nat Nat}
    (h : t.Finds offset answer) (hsorted : t.starts.toList.Pairwise (· < ·))
    (hzero : 0 ∈ t.starts.toList) :
    ∃ line, line? answer = some line ∧ line < t.starts.size ∧
      (∀ n ∈ t.starts.toList.take (line + 1), n ≤ offset) ∧
      ∀ n ∈ t.starts.toList.drop (line + 1), offset < n := by
  cases h with
  | @found line h =>
    obtain ⟨hline, hstart⟩ := Array.getElem?_eq_some_iff.mp h
    have hlist : line < t.starts.toList.length := by simpa using hline
    have hmiddle : t.starts.toList[line] = offset := by simpa using hstart
    have hsplit := List.take_append_drop line t.starts.toList
    rw [List.drop_eq_getElem_cons hlist, hmiddle] at hsplit
    have hparts := hsplit ▸ hsorted
    obtain ⟨-, hdrop, hapart⟩ := List.pairwise_append.mp hparts
    refine ⟨line, rfl, hline, fun n hn => ?_, fun n hn => (List.pairwise_cons.mp hdrop).1 n hn⟩
    rw [List.take_succ_eq_append_getElem hlist, hmiddle] at hn
    rcases List.mem_append.mp hn with hn | hn
    · exact (hapart n hn offset (List.mem_cons_self ..)).le
    · exact (List.mem_singleton.mp hn).le
  | @missing next hsize hbefore hbehind =>
    cases next with
    | zero => exact absurd (hbehind 0 (by simpa using hzero)) (Nat.not_lt_zero _)
    | succ line =>
      exact ⟨line, rfl, hsize, fun n hn => (hbefore n hn).le, hbehind⟩

/-- Any search ends at the line that the table finds, which begins at or before the offset. -/
theorem Finds.line?_eq {text : String} {offset : Nat} {answer : Except Nat Nat}
    (h : (ofText text).Finds offset answer) :
    line? answer = some ((ofText text).lineOf offset) ∧
      (ofText text).starts[(ofText text).lineOf offset]? =
        some ((ofText text).startOf ((ofText text).lineOf offset)) ∧
      (ofText text).startOf ((ofText text).lineOf offset) ≤ offset := by
  have hzero : 0 ∈ (ofText text).starts.toList := by simp [ofText]
  obtain ⟨line, hanswer, hline, hbefore, hbehind⟩ :=
    h.exists_split (pairwise_starts_ofText text) hzero
  generalize ofText text = t at *
  have hlength : (t.starts.toList.take (line + 1)).length = line + 1 := by
    rw [List.length_take, Array.length_toList]
    omega
  have hfound : t.lineOf offset = line := by
    rw [lineOf, t.search_eq (List.take_append_drop (line + 1) _).symm hbefore hbehind (by omega)
      (by omega) le_rfl, hlength, Nat.add_sub_cancel]
  have hstart : t.starts[line]? = some t.starts[line] := Array.getElem?_eq_getElem hline
  refine ⟨by rw [hanswer, hfound], ?_, ?_⟩
  · rw [hfound, startOf, hstart, Option.getD_some]
  · rw [hfound, startOf, hstart, Option.getD_some]
    refine hbefore _ (List.mem_take_iff_getElem.mpr ⟨line, ?_, by simp⟩)
    simpa using hline

/-! ## Checked look-ups -/

/-- The line and the column of an offset of `text` by the answer of a search for it, where nothing is
looked up outside the table and no larger number is taken from a smaller one. The number of bytes is
needed only where the offset is inside a character, but it is there for every offset. -/
def positionFrom? (t : LineTable) (answer : Except Nat Nat) (text : String) (offset : Nat) :
    Option (Nat × Nat) := do
  let offset := min offset (byteLength text.toList)
  let line ← line? answer
  let start ← t.starts[line]?
  let bytes ← if start ≤ offset then some (offset - start) else none
  return (line, ((slice? text.toList start offset).map List.length).getD bytes)

/-- Nothing goes wrong when a table is asked about an offset of any text. -/
theorem Finds.positionFrom?_eq {other text : String} {offset : Nat} {answer : Except Nat Nat}
    (h : (ofText other).Finds (min offset (byteLength text.toList)) answer) :
    (ofText other).positionFrom? answer text offset =
      some ((ofText other).position text offset) := by
  obtain ⟨hline, hstart, hle⟩ := h.line?_eq
  simp only [positionFrom?, position, hline, Option.bind_eq_bind, Option.bind_some, hstart, if_pos hle]
  cases slice? text.toList ((ofText other).startOf ((ofText other).lineOf
      (min offset (byteLength text.toList)))) (min offset (byteLength text.toList)) with
  | some before => rfl
  | none => rfl

/-! ## Places and their order -/

theorem strictMonoOn_position (text : String) :
    StrictMonoOn (fun n => toLex ((ofText text).position text n)) {n | IsBoundary text.toList n} := by
  rintro a ⟨before, after, hbefore, rfl⟩ b ⟨before', after', hbefore', rfl⟩ hlt
  obtain ⟨between, rfl, -⟩ := exists_append_of_le (hbefore.symm.trans hbefore') hlt.le
  have hpos : 0 < between.length := by
    rw [byteLength_append] at hlt
    cases between with
    | nil => simp at hlt
    | cons c cs => exact Nat.succ_pos _
  rw [Prod.Lex.toLex_lt_toLex]
  simp only [position_append hbefore, position_append hbefore']
  refine (count_lt_or_length_append before between).imp_right ?_
  rintro ⟨hcount, hlength⟩
  exact ⟨hcount, by omega⟩

/-- The line and the column of a place between two characters are the number of line feeds before it and
the number of characters behind the last of them; a later place has a later line or, on the same line, a
larger column, so they tell the place. For every offset and every table, the look-up reads the table
where it has a line and takes no larger number from a smaller one. -/
theorem position_counts (text : String) :
    (∀ before after, text.toList = before ++ after →
      (ofText text).position text (byteLength before) =
        (before.count '\n', (before.rtakeWhile (· != '\n')).length)) ∧
    StrictMonoOn (fun n => toLex ((ofText text).position text n)) {n | IsBoundary text.toList n} ∧
    Set.InjOn ((ofText text).position text) {n | IsBoundary text.toList n} ∧
    ∀ (other : String) (offset : Nat),
      (∃ answer, (ofText other).Finds (min offset (byteLength text.toList)) answer) ∧
      ∀ answer, (ofText other).Finds (min offset (byteLength text.toList)) answer →
        (ofText other).positionFrom? answer text offset =
          some ((ofText other).position text offset) := by
  refine ⟨fun _ _ => position_append, strictMonoOn_position text, ?_, fun other offset => ?_⟩
  · intro a ha b hb hab
    exact (strictMonoOn_position text).injOn ha hb (congrArg toLex hab)
  · exact ⟨exists_finds other _, fun answer h => h.positionFrom?_eq⟩

/-- A place behind an accented letter on the line before it, and a place inside that letter with the
table of another text. -/
theorem position_counts_accent :
    (ofText "é\nab").position "é\nab" 4 = (1, 1) ∧
      (ofText "\n\n").positionFrom? (.ok 1) "é\nab" 1 = some (1, 0) := by
  obtain ⟨hcounts, -, -, hchecked⟩ := position_counts "é\nab"
  have hfinds : (ofText "\n\n").Finds (min 1 (byteLength "é\nab".toList)) (.ok 1) := .found rfl
  have hposition : (ofText "\n\n").position "é\nab" 1 = (1, 0) := by decide +kernel
  exact ⟨hcounts ['é', '\n', 'a'] ['b'] rfl, ((hchecked _ 1).2 _ hfinds).trans (by rw [hposition])⟩

end ModuleBuild.LineTable
