import ModuleBuild.Token.Reading
import Mathlib.Tactic.SplitIfs

/-!
# Readers in front of other text

How far a literal reaches is settled by its own characters: where a reader has found the closing mark,
it finds the same mark when other text follows. A number has no closing mark; it ends in front of any
character with which it does not go on.

Main statements: the lemmas ending in `_append`, one for each reader with a closing mark;
`number_append_rest`, and `number_stops`, by which numbers are as long as they can be; and
`string_append_behind` and `regex_append_behind`, by which a reading that a line feed has stopped goes
on with any other text.
-/

namespace ModuleBuild.Reading

/-! ## One character at a time -/

/-- What a backslash takes with it, before `read` goes on. -/
def behindEscape (read : List Char → Reading) : List Char → Reading
  | [] => stopped []
  | d :: cs => cons d (read cs)

theorem string_cons (quote c : Char) (cs : List Char) :
    string quote (c :: cs) =
      if c = '\n' then stopped (c :: cs)
      else if c = '\\' then cons c (behindEscape (string quote) cs)
      else if c = quote then complete [c] cs
      else cons c (string quote cs) := by
  cases cs <;> simp [string, behindEscape]

theorem template_cons (c : Char) (cs : List Char) :
    template (c :: cs) =
      if c = '\\' then cons c (behindEscape template cs)
      else if c = '\x60' then complete [c] cs
      else if c = '$' ∧ cs.head? = some '{' then complete [c, '{'] cs.tail
      else cons c (template cs) := by
  cases cs with
  | nil => simp [template, behindEscape]
  | cons d cs =>
    by_cases hd : d = '{'
    · subst hd
      simp [template, behindEscape]
    · simp [template, behindEscape, hd]

theorem regex_cons (inClass : Bool) (c : Char) (cs : List Char) :
    regex inClass (c :: cs) =
      if c = '\n' then stopped (c :: cs)
      else if c = '\\' then cons c (behindEscape (regex inClass) cs)
      else if c = '[' then cons c (regex true cs)
      else if c = ']' then cons c (regex false cs)
      else if c = '/' ∧ inClass = false then complete [c] cs
      else cons c (regex inClass cs) := by
  cases cs with
  | nil =>
    by_cases h : c = '/' ∧ inClass = false
    · obtain ⟨rfl, rfl⟩ := h
      simp [regex]
    · simp [regex, behindEscape, h]
  | cons d cs => simp [regex, behindEscape]

theorem blockComment_cons (c : Char) (cs : List Char) :
    blockComment (c :: cs) =
      if c = '*' ∧ cs.head? = some '/' then complete [c, '/'] cs.tail
      else cons c (blockComment cs) := by
  cases cs with
  | nil => simp [blockComment]
  | cons d cs =>
    by_cases hd : d = '/'
    · subst hd
      simp [blockComment]
    · simp [blockComment, hd]

/-! ## Closing marks are found again -/

/-- A string that is closed ends there, whatever follows. -/
theorem string_append {quote : Char} {cs : List Char} (h : (string quote cs).closed = true)
    (rest : List Char) :
    string quote ((string quote cs).taken ++ rest) = ⟨(string quote cs).taken, rest, true⟩ := by
  fun_induction string quote cs with
  | case1 | case2 | case3 | case5 | case6 => simp at h
  | case4 hline hback => simp [string_cons, hline, hback, complete]
  | case7 d cs hline ih => simp_all [string_cons, behindEscape, cons]
  | case8 d cs hline hback => simp [string_cons, hline, hback, complete]
  | case9 c d cs hline hback hquote ih => simp_all [string_cons, cons]

theorem head?_taken_template {cs : List Char} (h : (template cs).closed = true) :
    (template cs).taken.head? = cs.head? := by
  cases cs with
  | nil => simp [template] at h
  | cons c cs =>
    rw [template_cons]
    split_ifs <;> rfl

/-- A stretch of a template that is closed ends there, whatever follows. -/
theorem template_append {cs : List Char} (h : (template cs).closed = true) (rest : List Char) :
    template ((template cs).taken ++ rest) = ⟨(template cs).taken, rest, true⟩ := by
  fun_induction template cs with
  | case1 | case2 | case4 => simp at h
  | case3 hback => simp [template_cons, complete]
  | case5 d cs ih => simp_all [template_cons, behindEscape, cons]
  | case6 d cs hback => simp [template_cons, complete]
  | case7 c d cs hback hquote hmark =>
    obtain ⟨rfl, rfl⟩ := hmark
    simp [template_cons, complete]
  | case8 c d cs hback hquote hmark ih =>
    have hclosed : (template (d :: cs)).closed = true := h
    -- What follows `c` is `d` again, so no mark begins at `c`.
    have hhead : ((template (d :: cs)).taken ++ rest).head? = some d := by
      rw [List.head?_append, head?_taken_template hclosed]
      rfl
    have hnone : ¬(c = '$' ∧ ((template (d :: cs)).taken ++ rest).head? = some '{') := by
      rw [hhead, Option.some.injEq]
      exact hmark
    rw [cons_taken, List.cons_append, template_cons, if_neg hback, if_neg hquote, if_neg hnone,
      ih hclosed]
    rfl

theorem head?_taken_blockComment {cs : List Char} (h : (blockComment cs).closed = true) :
    (blockComment cs).taken.head? = cs.head? := by
  cases cs with
  | nil => simp [blockComment] at h
  | cons c cs =>
    rw [blockComment_cons]
    split_ifs <;> rfl

/-- A block comment that is closed ends there, whatever follows. -/
theorem blockComment_append {cs : List Char} (h : (blockComment cs).closed = true)
    (rest : List Char) :
    blockComment ((blockComment cs).taken ++ rest) = ⟨(blockComment cs).taken, rest, true⟩ := by
  fun_induction blockComment cs with
  | case1 | case2 => simp at h
  | case3 c d cs hmark =>
    obtain ⟨rfl, rfl⟩ := hmark
    simp [blockComment_cons, complete]
  | case4 c d cs hmark ih =>
    have hclosed : (blockComment (d :: cs)).closed = true := h
    have hhead : ((blockComment (d :: cs)).taken ++ rest).head? = some d := by
      rw [List.head?_append, head?_taken_blockComment hclosed]
      rfl
    have hnone : ¬(c = '*' ∧ ((blockComment (d :: cs)).taken ++ rest).head? = some '/') := by
      rw [hhead, Option.some.injEq]
      exact hmark
    rw [cons_taken, List.cons_append, blockComment_cons, if_neg hnone, ih hclosed]
    rfl

/-- A regular expression that is closed ends there, whatever follows. -/
theorem regex_append {inClass : Bool} {cs : List Char} (h : (regex inClass cs).closed = true)
    (rest : List Char) :
    regex inClass ((regex inClass cs).taken ++ rest) = ⟨(regex inClass cs).taken, rest, true⟩ := by
  fun_induction regex inClass cs with
  | case1 | case2 | case4 | case5 => simp at h
  | case3 inClass c hline hmark =>
    obtain ⟨rfl, rfl⟩ := hmark
    simp [regex_cons, complete]
  | case6 inClass d cs ih => simp_all [regex_cons, behindEscape, cons]
  | case7 inClass d cs ih => simp_all [regex_cons, cons]
  | case8 inClass d cs ih => simp_all [regex_cons, cons]
  | case9 inClass c d cs hline hback hopen hclose hmark =>
    obtain ⟨rfl, rfl⟩ := hmark
    simp [regex_cons, complete]
  | case10 inClass c d cs hline hback hopen hclose hmark ih => simp_all [regex_cons, cons]

theorem head?_taken_regex {inClass : Bool} {cs : List Char}
    (h : (regex inClass cs).closed = true) : (regex inClass cs).taken.head? = cs.head? := by
  cases cs with
  | nil => simp [regex] at h
  | cons c cs =>
    rw [regex_cons] at h ⊢
    split_ifs at h ⊢
    · simp at h
    · rfl
    · rfl
    · rfl
    · rfl
    · rfl

/-! ## Numbers -/

/-- A number ends there again in front of text with which it does not go on. -/
theorem number_append_rest {hexadecimal : Bool} {previous : Char} {cs rest : List Char}
    (h : ∀ d, rest.head? = some d → continuesNumber hexadecimal
      ((number hexadecimal previous cs).1.getLastD previous) d = false) :
    number hexadecimal previous ((number hexadecimal previous cs).1 ++ rest) =
      ((number hexadecimal previous cs).1, rest) := by
  fun_induction number hexadecimal previous cs with
  | case1 previous => cases rest <;> simp_all [number]
  | case2 previous c cs hc taken rest' heq ih =>
    rw [heq] at ih
    have hrest := ih fun d hd => by simpa only [List.getLastD_cons] using h d hd
    simp only [List.cons_append, number, hc, if_true]
    rw [hrest]
  | case3 previous c cs hc => cases rest <;> simp_all [number]

/-- A number does not go on with the character behind it. -/
theorem number_stops {hexadecimal : Bool} {previous d : Char} {cs : List Char}
    (h : (number hexadecimal previous cs).2.head? = some d) :
    continuesNumber hexadecimal ((number hexadecimal previous cs).1.getLastD previous) d = false := by
  fun_induction number hexadecimal previous cs with
  | case1 => simp at h
  | case2 previous c cs hc taken rest heq ih =>
    rw [heq] at ih
    simpa only [List.getLastD_cons] using ih h
  | case3 previous c cs hc => simp_all

/-! ## Readings that stop -/

/-- The reading that has already taken these characters. -/
def behind (taken : List Char) (r : Reading) : Reading := { r with taken := taken ++ r.taken }

@[simp] theorem behind_nil (r : Reading) : behind [] r = r := rfl

@[simp] theorem behind_cons (c : Char) (taken : List Char) (r : Reading) :
    behind (c :: taken) r = cons c (behind taken r) := rfl

/-- A string that stops in front of other text has not been cut in an escape, so it goes on with
whatever stands there instead. -/
theorem string_append_behind {quote : Char} {cs : List Char}
    (hopen : (string quote cs).closed = false) (hrest : (string quote cs).rest ≠ [])
    (more : List Char) :
    string quote ((string quote cs).taken ++ more) =
      behind (string quote cs).taken (string quote more) := by
  fun_induction string quote cs with
  | case1 | case3 | case5 => exact absurd rfl hrest
  | case2 | case6 => rfl
  | case4 | case8 => cases hopen
  | case7 d cs hline ih =>
    have hnext := ih hopen hrest
    simp [string_cons, behindEscape, hnext]
  | case9 c d cs hline hback hquote ih =>
    rw [cons_taken, List.cons_append, string_cons, if_neg hline, if_neg hback, if_neg hquote,
      ih hopen hrest, behind_cons]

theorem regex_append_behind {inClass : Bool} {cs : List Char}
    (hopen : (regex inClass cs).closed = false) (hrest : (regex inClass cs).rest ≠ []) :
    ∃ inClass', ∀ more, regex inClass ((regex inClass cs).taken ++ more) =
      behind (regex inClass cs).taken (regex inClass' more) := by
  fun_induction regex inClass cs with
  | case1 | case4 => exact absurd rfl hrest
  | case2 inClass | case5 inClass => exact ⟨inClass, fun _ => rfl⟩
  | case3 | case9 => cases hopen
  | case6 inClass d cs hline ih =>
    obtain ⟨inClass', hnext⟩ := ih hopen hrest
    exact ⟨inClass', fun more => by simp [regex_cons, behindEscape, hnext]⟩
  | case7 inClass d cs _ _ ih | case8 inClass d cs _ _ _ ih =>
    obtain ⟨inClass', hnext⟩ := ih hopen hrest
    refine ⟨inClass', fun more => ?_⟩
    rw [cons_taken, List.cons_append, regex_cons, behind_cons, ← hnext]
    rfl
  | case10 inClass c d cs hline hback hbegin hend hmark ih =>
    obtain ⟨inClass', hnext⟩ := ih hopen hrest
    refine ⟨inClass', fun more => ?_⟩
    rw [cons_taken, List.cons_append, regex_cons, if_neg hline, if_neg hback, if_neg hbegin,
      if_neg hend, if_neg hmark, behind_cons, hnext]

/-- Only a line feed stops a string in front of other text. -/
theorem head?_rest_string {quote c : Char} {cs : List Char}
    (hopen : (string quote cs).closed = false) (hc : (string quote cs).rest.head? = some c) :
    c = '\n' := by
  fun_induction string quote cs with
  | case1 | case3 | case5 => cases hc
  | case2 | case6 => simpa using hc.symm
  | case4 | case8 => cases hopen
  | case7 d cs hline ih => exact ih hopen hc
  | case9 c d cs hline hback hquote ih => exact ih hopen hc

theorem head?_rest_regex {inClass : Bool} {c : Char} {cs : List Char}
    (hopen : (regex inClass cs).closed = false) (hc : (regex inClass cs).rest.head? = some c) :
    c = '\n' := by
  fun_induction regex inClass cs with
  | case1 | case4 => cases hc
  | case2 | case5 => simpa using hc.symm
  | case3 | case9 => cases hopen
  | case6 inClass d cs _ ih | case7 inClass d cs _ _ ih | case8 inClass d cs _ _ _ ih =>
    exact ih hopen hc
  | case10 inClass c d cs hline hback hopen' hclose hmark ih => exact ih hopen hc

/-- A string that a line feed stops is stopped there in front of any text that begins so. -/
theorem string_append_more {quote : Char} {cs : List Char}
    (hopen : (string quote cs).closed = false) (hrest : (string quote cs).rest ≠ [])
    (more : List Char) :
    string quote (cs ++ more) =
      ⟨(string quote cs).taken, (string quote cs).rest ++ more, false⟩ := by
  obtain ⟨d, rest, hd⟩ := List.exists_cons_of_ne_nil hrest
  obtain rfl : d = '\n' := head?_rest_string hopen (by rw [hd]; rfl)
  have hcs : cs ++ more = (string quote cs).taken ++ ('\n' :: (rest ++ more)) := by
    rw [← List.cons_append, ← hd, ← List.append_assoc, string_taken_append]
  rw [hcs, string_append_behind hopen hrest, string_cons, if_pos rfl, hd]
  simp [behind, stopped]

theorem regex_append_more {inClass : Bool} {cs : List Char}
    (hopen : (regex inClass cs).closed = false) (hrest : (regex inClass cs).rest ≠ [])
    (more : List Char) :
    regex inClass (cs ++ more) =
      ⟨(regex inClass cs).taken, (regex inClass cs).rest ++ more, false⟩ := by
  obtain ⟨inClass', hbehind⟩ := regex_append_behind hopen hrest
  obtain ⟨d, rest, hd⟩ := List.exists_cons_of_ne_nil hrest
  obtain rfl : d = '\n' := head?_rest_regex hopen (by rw [hd]; rfl)
  have hcs : cs ++ more = (regex inClass cs).taken ++ ('\n' :: (rest ++ more)) := by
    rw [← List.cons_append, ← hd, ← List.append_assoc, regex_taken_append]
  rw [hcs, hbehind, regex_cons, if_pos rfl, hd]
  simp [behind, stopped]

/-- Only the end of the text leaves a template open. -/
theorem rest_template {cs : List Char} (hopen : (template cs).closed = false) :
    (template cs).rest = [] := by
  fun_induction template cs with
  | case1 | case2 | case4 => rfl
  | case3 | case6 | case7 => cases hopen
  | case5 d cs ih | case8 c d cs hback hquote hmark ih => exact ih hopen

theorem rest_blockComment {cs : List Char} (hopen : (blockComment cs).closed = false) :
    (blockComment cs).rest = [] := by
  fun_induction blockComment cs with
  | case1 | case2 => rfl
  | case3 => cases hopen
  | case4 c d cs hmark ih => exact ih hopen

end ModuleBuild.Reading
