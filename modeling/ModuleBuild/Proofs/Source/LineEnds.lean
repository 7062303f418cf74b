import ModuleBuild.Proofs.Source.LineTable

/-!
# Line ends of two characters

In some texts a carriage return stands in front of each line feed. Writing a text in this way moves
each place by the number of line feeds before it, and the carriage returns stand at the ends of lines.
So a place keeps its line and its column.

Main statements: `Text.byteLength_withReturns`, about offsets; `LineTable.position_crlf`, about lines and
columns; and `LineTable.eq_of_position_eq`, by which a line and a column tell the place.
-/

namespace ModuleBuild

namespace Text

/-- The characters with a carriage return in front of each line feed. -/
def withReturns (cs : List Char) : List Char :=
  cs.flatMap fun c => if c = '\n' then ['\r', '\n'] else [c]

/-- The text with a carriage return in front of each line feed. -/
def crlf (text : String) : String := String.ofList (withReturns text.toList)

@[simp] theorem toList_crlf (text : String) : (crlf text).toList = withReturns text.toList :=
  String.toList_ofList

@[simp] theorem withReturns_nil : withReturns [] = [] := rfl

@[simp] theorem withReturns_append (cs ds : List Char) :
    withReturns (cs ++ ds) = withReturns cs ++ withReturns ds :=
  List.flatMap_append

@[simp] theorem withReturns_feed (cs : List Char) :
    withReturns ('\n' :: cs) = '\r' :: '\n' :: withReturns cs := rfl

theorem withReturns_cons {c : Char} (hc : c ≠ '\n') (cs : List Char) :
    withReturns (c :: cs) = c :: withReturns cs := by
  rw [withReturns, List.flatMap_cons, if_neg hc, List.singleton_append, withReturns]

theorem withReturns_eq_self {cs : List Char} (h : '\n' ∉ cs) : withReturns cs = cs := by
  induction cs with
  | nil => rfl
  | cons c cs ih =>
    have hc : c ≠ '\n' := Ne.symm (List.ne_of_not_mem_cons h)
    rw [withReturns_cons hc, ih (List.not_mem_of_not_mem_cons h)]

/-- No character but a line feed changes, so the text begins with the same one. -/
theorem head?_withReturns_iff {cs : List Char} {d : Char} (hfeed : d ≠ '\n') (hreturn : d ≠ '\r') :
    (withReturns cs).head? = some d ↔ cs.head? = some d := by
  cases cs with
  | nil => rfl
  | cons c cs =>
    by_cases hc : c = '\n'
    · subst hc
      simp [hfeed.symm, hreturn.symm]
    · rw [withReturns_cons hc]
      rfl

/-- Other marks than line ends are found in the same places when something else than one of them stands
for each line feed. -/
theorem isPrefixOf_flatMap {marks : List Char} {f : Char → List Char} {d : Char} {ds : List Char}
    (hplain : ∀ c, c ≠ '\n' → f c = [c]) (hfeed : f '\n' = d :: ds) (hd : d ∉ marks)
    (hmarks : '\n' ∉ marks) (cs : List Char) :
    marks.isPrefixOf (cs.flatMap f) = marks.isPrefixOf cs := by
  induction marks generalizing cs with
  | nil => rfl
  | cons m marks ih =>
    cases cs with
    | nil => rfl
    | cons c cs =>
      rw [List.flatMap_cons]
      by_cases hc : c = '\n'
      · have hfirst : (m == d) = false ∧ (m == '\n') = false :=
          ⟨beq_false_of_ne (List.ne_of_not_mem_cons hd).symm,
            beq_false_of_ne (List.ne_of_not_mem_cons hmarks).symm⟩
        rw [hc, hfeed, List.cons_append, List.isPrefixOf, List.isPrefixOf, hfirst.1, hfirst.2,
          Bool.false_and, Bool.false_and]
      · rw [hplain c hc, List.singleton_append, List.isPrefixOf, List.isPrefixOf,
          ih (List.not_mem_of_not_mem_cons hd) (List.not_mem_of_not_mem_cons hmarks)]

theorem isPrefixOf_withReturns {marks : List Char} (hreturn : '\r' ∉ marks) (hfeed : '\n' ∉ marks)
    (cs : List Char) : marks.isPrefixOf (withReturns cs) = marks.isPrefixOf cs :=
  isPrefixOf_flatMap (fun _ hc => if_neg hc) rfl hreturn hfeed cs

theorem isPrefixOf_reverse_withReturns {marks : List Char} (hfeed : '\n' ∉ marks) (cs : List Char) :
    marks.isPrefixOf (withReturns cs).reverse = marks.isPrefixOf cs.reverse := by
  rw [withReturns, List.reverse_flatMap]
  refine isPrefixOf_flatMap (fun c hc => ?_) rfl hfeed hfeed cs.reverse
  rw [Function.comp_apply, if_neg hc, List.reverse_singleton]

/-! ## Places -/

theorem count_withReturns (cs : List Char) : (withReturns cs).count '\n' = cs.count '\n' := by
  induction cs with
  | nil => rfl
  | cons c cs ih =>
    by_cases hc : c = '\n'
    · subst hc
      simp [ih]
    · rw [withReturns_cons hc, List.count_cons, List.count_cons, ih]

theorem byteLength_withReturns (cs : List Char) :
    byteLength (withReturns cs) = byteLength cs + cs.count '\n' := by
  induction cs with
  | nil => rfl
  | cons c cs ih =>
    by_cases hc : c = '\n'
    · subst hc
      have hreturn : '\r'.utf8Size = 1 := by decide
      rw [withReturns_feed, byteLength_cons, byteLength_cons, byteLength_cons, ih,
        List.count_cons_self, hreturn]
      omega
    · rw [withReturns_cons hc, byteLength_cons, byteLength_cons, ih, List.count_cons_of_ne hc,
        Nat.add_assoc]

/-- What stands behind the last line feed stays as it is. -/
theorem rtakeWhile_withReturns (cs : List Char) :
    (withReturns cs).rtakeWhile (· != '\n') = cs.rtakeWhile (· != '\n') := by
  induction cs using List.reverseRecOn with
  | nil => rfl
  | append_singleton cs c ih =>
    by_cases hc : c = '\n'
    · subst hc
      have hlast : withReturns (cs ++ ['\n']) = (withReturns cs ++ ['\r']) ++ ['\n'] := by simp
      rw [hlast, List.rtakeWhile_concat_neg _ _ _ (by simp),
        List.rtakeWhile_concat_neg _ _ _ (by simp)]
    · have hlast : withReturns [c] = [c] := withReturns_cons hc []
      rw [withReturns_append, hlast, List.rtakeWhile_concat_pos _ _ _ (by simpa using hc), ih,
        List.rtakeWhile_concat_pos _ _ _ (by simpa using hc)]

end Text

namespace LineTable

open Text

variable {text : String} {before after : List Char}

/-- A place keeps its line and its column. -/
theorem position_crlf (h : text.toList = before ++ after) :
    (ofText (crlf text)).position (crlf text) (byteLength (withReturns before)) =
      (ofText text).position text (byteLength before) := by
  have hcrlf : (crlf text).toList = withReturns before ++ withReturns after := by
    rw [toList_crlf, h, withReturns_append]
  rw [position_append hcrlf, position_append h, count_withReturns, rtakeWhile_withReturns]

/-- A place moves by the number of its line. -/
theorem byteLength_withReturns_eq (h : text.toList = before ++ after) :
    byteLength (withReturns before) =
      byteLength before + (ofText text).lineOf (byteLength before) := by
  rw [byteLength_withReturns, lineOf_byteLength h]

/-- Two places with the same line and the same column are one. -/
theorem eq_of_position_eq {before' after' : List Char} (h : text.toList = before ++ after)
    (h' : text.toList = before' ++ after')
    (hposition : (ofText text).position text (byteLength before) =
      (ofText text).position text (byteLength before')) : before = before' := by
  rw [position_append h, position_append h'] at hposition
  obtain ⟨hline, hcolumn⟩ := Prod.mk.inj hposition
  have hbetween : ∀ cs between : List Char, cs.count '\n' = (cs ++ between).count '\n' →
      (cs.rtakeWhile (· != '\n')).length = ((cs ++ between).rtakeWhile (· != '\n')).length →
      between = [] := by
    intro cs between hcount hlength
    refine List.length_eq_zero_iff.mp ?_
    rcases count_lt_or_length_append cs between with hlt | ⟨-, hlonger⟩
    · omega
    · omega
  rcases List.append_eq_append_iff.mp (h.symm.trans h') with ⟨between, rfl, -⟩ | ⟨between, rfl, -⟩
  · rw [hbetween before between hline hcolumn, List.append_nil]
  · rw [hbetween before' between hline.symm hcolumn.symm, List.append_nil]

end LineTable

end ModuleBuild
