import ModuleBuild.Proofs.Build.Verdict

/-!
# Positions in reports

A line of a report names the position that the line table of a file gives to a diagnostic, and a snippet
the position at which it finds the first byte of the diagnostic among its own lines. Where the line feed
is the only end of a line, the two kinds of lines are the same but for one: behind a last line feed the
table has an empty line, and the snippet has none. So a report about the end of such a text names another
position as a snippet than as a line.

Main statements: `Snippet.position_eq_iff`, about the position of a snippet; and
`LexicalProgram.same_position_iff`, about what is reported in both styles.
-/

namespace ModuleBuild

open Text

/-- A position in a file as it is written, counted from one. -/
def placeText (file : String) (position : Nat × Nat) : String :=
  file ++ ":" ++ toString (position.1 + 1) ++ ":" ++ toString (position.2 + 1)

namespace Snippet

/-- The line and the column, counted from zero, that a snippet about a span names. -/
def position (cs : List Char) (span : Span) : Nat × Nat :=
  let start := (clamp (byteLength cs) span).start
  ((lineAt cs start).number, (lineAt cs start).column start)

/-- The rows of a snippet down to the one that names its place. -/
def heading (color : Bool) (severity : Severity) (code : Option Nat) (message place : String)
    (width : Nat) : String :=
  header color (lookOf severity) code message ++ "\n" ++ copies width ' ' ++
    paint color frameColor "╭" ++ paint color frameColor "─" ++ paint color frameColor "[" ++ " " ++
    place ++ " " ++ paint color frameColor "]" ++ "\n"

/-- A text still begins as it does when more is written behind it. -/
theorem exists_append_of_exists {first text : String} (h : ∃ rest, text = first ++ rest)
    (more : String) : ∃ rest, text ++ more = first ++ rest := by
  obtain ⟨rest, rfl⟩ := h
  exact ⟨rest ++ more, String.append_assoc ..⟩

/-- A snippet begins with its heading, which names the position. -/
theorem exists_write_eq (color : Bool) (severity : Severity) (code : Option Nat)
    (message name : String) (span : Span) (text : String) :
    ∃ width rows, write color severity code message name span text =
      heading color severity code message (placeText name (position text.toList span)) width ++
        rows := by
  unfold write
  dsimp only
  apply Exists.intro
  -- Behind the heading stand the empty row, the row of the source text, and the last row.
  iterate 8 refine exists_append_of_exists ?_ _
  exact ⟨"", (String.append_empty).symm⟩

/-! ## The lines of a text -/

/-- No character but the line feed ends a line. -/
def FeedsOnly (cs : List Char) : Prop := ∀ c ∈ cs, endsLine c = true → c = '\n'

instance (cs : List Char) : Decidable (FeedsOnly cs) :=
  List.decidableBAll (fun c => endsLine c = true → c = '\n') cs

theorem FeedsOnly.right {as bs : List Char} (h : FeedsOnly (as ++ bs)) : FeedsOnly bs :=
  fun c hc => h c (List.mem_append_right _ hc)

theorem FeedsOnly.tail {c : Char} {cs : List Char} (h : FeedsOnly (c :: cs)) : FeedsOnly cs :=
  fun d hd => h d (List.mem_cons_of_mem _ hd)

theorem linesOf_feed (cs : List Char) : linesOf ('\n' :: cs) = ['\n'] :: linesOf cs := by
  rw [linesOf, if_pos (by simp [endsLine])]

theorem linesOf_cons {c : Char} {cs : List Char} (h : FeedsOnly (c :: cs)) (hc : c ≠ '\n') :
    linesOf (c :: cs) = (c :: (linesOf cs).headD []) :: (linesOf cs).tail := by
  have hends : endsLine c = false := by
    cases hends : endsLine c with
    | false => rfl
    | true => exact absurd (h c (List.mem_cons_self ..) hends) hc
  rw [linesOf, hends]
  cases linesOf cs <;> rfl

theorem linesOf_ne_nil {cs : List Char} (h : FeedsOnly cs) (hne : cs ≠ []) : linesOf cs ≠ [] := by
  cases cs with
  | nil => exact absurd rfl hne
  | cons c cs =>
    by_cases hc : c = '\n'
    · rw [hc, linesOf_feed]
      exact List.cons_ne_nil _ _
    · rw [linesOf_cons h hc]
      exact List.cons_ne_nil _ _

/-- A line feed ends the first line. -/
theorem linesOf_append_feed {line rest : List Char} (h : FeedsOnly (line ++ '\n' :: rest))
    (hline : '\n' ∉ line) : linesOf (line ++ '\n' :: rest) = (line ++ ['\n']) :: linesOf rest := by
  induction line with
  | nil => exact linesOf_feed rest
  | cons c cs ih =>
    obtain ⟨hc, hcs⟩ := List.ne_and_not_mem_of_not_mem_cons hline
    rw [List.cons_append] at h ⊢
    rw [linesOf_cons h (Ne.symm hc), ih h.tail hcs]
    rfl

theorem linesOf_of_not_mem {line : List Char} (h : FeedsOnly line) (hline : '\n' ∉ line) :
    linesOf line = if line = [] then [] else [line] := by
  induction line with
  | nil => rfl
  | cons c cs ih =>
    obtain ⟨hc, hcs⟩ := List.ne_and_not_mem_of_not_mem_cons hline
    rw [linesOf_cons h (Ne.symm hc), ih h.tail hcs]
    cases cs <;> rfl

/-- A text that ends in a line feed has as many lines as line feeds. -/
theorem length_linesOf {cs : List Char} (h : FeedsOnly cs) (hlast : cs.getLast? = some '\n') :
    (linesOf cs).length = cs.count '\n' := by
  induction cs with
  | nil => cases hlast
  | cons c cs ih =>
    have hcs := h.tail
    cases cs with
    | nil =>
      obtain rfl : c = '\n' := by simpa using hlast
      rfl
    | cons d cs =>
      have hrest := ih hcs (by rwa [List.getLast?_cons_cons] at hlast)
      by_cases hc : c = '\n'
      · rw [hc, linesOf_feed, List.length_cons, hrest, List.count_cons_self]
      · have hpos := List.length_pos_iff.mpr (linesOf_ne_nil hcs (List.cons_ne_nil _ _))
        rw [linesOf_cons h hc, List.length_cons, List.length_tail, hrest,
          List.count_cons_of_ne hc]
        omega

/-! ## The line of an offset -/

/-- The line of an offset is one of the lines. -/
theorem number_lineFrom_lt {offset number start : Nat} {ls : List (List Char)} (h : ls ≠ []) :
    (lineFrom offset number start ls).number < number + ls.length := by
  fun_induction lineFrom offset number start ls with
  | case1 => exact absurd rfl h
  | case2 => simp
  | case3 number start l m ls next hnext ih =>
    have hlt := ih (List.cons_ne_nil _ _)
    simp only [List.length_cons] at hlt ⊢
    omega
  | case4 => simp

/-- Text without a line feed stands on its first line. -/
theorem exists_lineFrom_eq {before after : List Char} (h : FeedsOnly (before ++ after))
    (hbefore : '\n' ∉ before) (number start : Nat) :
    ∃ x, lineFrom (start + byteLength before) number start (linesOf (before ++ after)) =
      ⟨number, start, before ++ x⟩ := by
  by_cases hafter : '\n' ∈ after
  · obtain ⟨x, rest, rfl, hx⟩ := List.eq_append_cons_of_mem hafter
    have hline : '\n' ∉ before ++ x := by simp [hbefore, hx]
    refine ⟨x ++ ['\n'], ?_⟩
    rw [← List.append_assoc] at h ⊢
    rw [linesOf_append_feed h hline]
    cases linesOf rest with
    | nil => rw [lineFrom, List.append_assoc]
    | cons m ls =>
      have hlater : ¬ start + byteLength (before ++ x ++ ['\n']) ≤ start + byteLength before := by
        simp only [byteLength_append]
        have hpos := ('\n' : Char).utf8Size_pos
        rw [byteLength_cons]
        omega
      rw [lineFrom, if_neg hlater, List.append_assoc]
  · refine ⟨after, ?_⟩
    rw [linesOf_of_not_mem h (by simp [hbefore, hafter])]
    split
    · next hnil => rw [lineFrom, hnil]
    · rw [lineFrom]

theorem charsWithin_append (as bs : List Char) : charsWithin (as ++ bs) (byteLength as) = as.length := by
  induction as with
  | nil =>
    cases bs with
    | nil => rfl
    | cons b bs =>
      have hpos := b.utf8Size_pos
      rw [List.nil_append, byteLength_nil, charsWithin, if_neg (by omega)]
      rfl
  | cons a as ih =>
    rw [List.cons_append, byteLength_cons, charsWithin, if_pos (Nat.le_add_right ..),
      Nat.add_sub_cancel_left, ih, List.length_cons]

/-- Only what stands behind the last line feed is on the line. -/
theorem rtakeWhile_append_feed (line before : List Char) :
    (line ++ '\n' :: before).rtakeWhile (· != '\n') = before.rtakeWhile (· != '\n') := by
  induction before using List.reverseRecOn with
  | nil => exact List.rtakeWhile_concat_neg _ _ _ (by simp)
  | append_singleton before c ih =>
    rw [← List.cons_append, ← List.append_assoc]
    by_cases hc : c = '\n'
    · rw [List.rtakeWhile_concat_neg _ _ _ (by simpa using hc),
        List.rtakeWhile_concat_neg _ _ _ (by simpa using hc)]
    · rw [List.rtakeWhile_concat_pos _ _ _ (by simpa using hc), ih,
        List.rtakeWhile_concat_pos _ _ _ (by simpa using hc)]

/-- The line of a place has the number of the line feeds before it, and the place has the column of the
characters behind the last of them, unless the text ends there behind a line feed. -/
theorem lineFrom_append {before after : List Char} (h : FeedsOnly (before ++ after))
    (hend : after = [] → before.getLast? ≠ some '\n') (number start : Nat) :
    (lineFrom (start + byteLength before) number start (linesOf (before ++ after))).number =
        number + before.count '\n' ∧
      (lineFrom (start + byteLength before) number start (linesOf (before ++ after))).column
        (start + byteLength before) = (before.rtakeWhile (· != '\n')).length := by
  induction hlength : before.length using Nat.strongRecOn generalizing before number start with
  | _ n ih =>
    subst hlength
    by_cases hfeed : '\n' ∈ before
    · -- The first line ends in front of the place.
      obtain ⟨line, rest, rfl, hline⟩ := List.eq_append_cons_of_mem hfeed
      have hsplit : line ++ '\n' :: rest ++ after = line ++ '\n' :: (rest ++ after) := by simp
      rw [hsplit] at h ⊢
      have hrest : FeedsOnly (rest ++ after) := h.right.tail
      have hne : rest ++ after ≠ [] := by
        intro hnil
        obtain ⟨rfl, rfl⟩ := List.append_eq_nil_iff.mp hnil
        exact hend rfl (by simp)
      have hlast : after = [] → rest.getLast? ≠ some '\n' := by
        intro hnil hrestLast
        refine hend hnil ?_
        rw [List.getLast?_append, List.getLast?_cons, hrestLast]
        rfl
      obtain ⟨m, ls, hls⟩ := List.exists_cons_of_ne_nil (linesOf_ne_nil hrest hne)
      have hbytes : byteLength (line ++ '\n' :: rest) =
          byteLength (line ++ ['\n']) + byteLength rest := by
        simp [Nat.add_assoc]
      have hstep : lineFrom (start + byteLength (line ++ '\n' :: rest)) number start
          (linesOf (line ++ '\n' :: (rest ++ after))) =
            lineFrom (start + byteLength (line ++ ['\n']) + byteLength rest) (number + 1)
              (start + byteLength (line ++ ['\n'])) (linesOf (rest ++ after)) := by
        rw [linesOf_append_feed h hline, hls, lineFrom, hbytes, if_pos (by omega), Nat.add_assoc]
      obtain ⟨hnumber, hcolumn⟩ := ih rest.length (by simp; omega) hrest hlast (number + 1)
        (start + byteLength (line ++ ['\n'])) rfl
      rw [hstep, hbytes, ← Nat.add_assoc, hnumber, hcolumn, rtakeWhile_append_feed, List.count_append,
        List.count_cons_self, List.count_eq_zero.mpr hline]
      exact ⟨by omega, rfl⟩
    · obtain ⟨x, hx⟩ := exists_lineFrom_eq h hfeed number start
      have hall : before.rtakeWhile (· != '\n') = before := by
        have hnil := @LineTable.rtakeWhile_append_of_not_mem [] before hfeed
        simpa using hnil
      rw [hx, hall, Line.column, Nat.add_sub_cancel_left, charsWithin_append,
        List.count_eq_zero.mpr hfeed]
      exact ⟨rfl, rfl⟩

/-! ## The position of a snippet -/

/-- A snippet names the position of a place of the text, unless that is the end behind a line feed. -/
theorem position_eq {before after : List Char} {span : Span} (h : FeedsOnly (before ++ after))
    (hend : after = [] → before.getLast? ≠ some '\n') (hstart : span.start = byteLength before) :
    position (before ++ after) span =
      (before.count '\n', (before.rtakeWhile (· != '\n')).length) := by
  obtain ⟨hnumber, hcolumn⟩ := lineFrom_append h hend 0 0
  have hclamp : (clamp (byteLength (before ++ after)) span).start = 0 + byteLength before := by
    show min span.start (byteLength (before ++ after)) = _
    rw [hstart, byteLength_append]
    omega
  rw [position, hclamp]
  exact Prod.ext (hnumber.trans (Nat.zero_add _)) hcolumn

/-- A snippet has no line behind the last line feed of a text. -/
theorem position_fst_lt {cs : List Char} (h : FeedsOnly cs) (hlast : cs.getLast? = some '\n')
    (span : Span) : (position cs span).1 < cs.count '\n' := by
  have hne : cs ≠ [] := by
    rintro rfl
    cases hlast
  rw [← length_linesOf h hlast, ← Nat.zero_add (linesOf cs).length]
  exact number_lineFrom_lt (linesOf_ne_nil h hne)

/-- A snippet names the position that the table of lines gives to a place of the text exactly if the
place is not the end of a text that ends in a line feed. -/
theorem position_eq_iff {cs : List Char} {l : Location} (h : FeedsOnly cs) (hl : l.IsIn cs) :
    position cs l.span = (l.line, l.column) ↔
      ¬(l.span.start = byteLength cs ∧ cs.getLast? = some '\n') := by
  obtain ⟨before, after, rfl, hstart, hline, hcolumn⟩ := hl.position
  rw [hline, hcolumn]
  constructor
  · rintro hposition ⟨hend, hlast⟩
    have hnil : after = [] := by
      rw [hstart, byteLength_append] at hend
      have hle := length_le_byteLength after
      exact List.length_eq_zero_iff.mp (by omega)
    subst hnil
    have hlt := position_fst_lt h hlast l.span
    rw [hposition, List.append_nil] at hlt
    exact Nat.lt_irrefl _ hlt
  · intro hnot
    refine position_eq h (fun hnil hlast => hnot ?_) hstart
    subst hnil
    exact ⟨by rw [hstart, List.append_nil], by rw [List.append_nil, hlast]⟩

end Snippet

/-! ## Both styles -/

namespace Reporter

variable {W : Type}

theorem written_plain {r : Reporter W} (hstyle : r.style = .plain) (d : Diagnostic) (l : Location) :
    r.written d l = placeText l.file (l.line, l.column) ++
      (": " ++ d.severity.name ++ ": " ++ d.message.flatten "\n" ++ "\n") := by
  rw [written, hstyle]
  simp only [line, placeText, String.append_assoc]

theorem written_pretty {r : Reporter W} {color : Bool} (hstyle : r.style = .pretty color)
    {file : SourceFile} {l : Location} (hfile : l.file = file.name) (d : Diagnostic) :
    (r.addSource file).written d l =
      Snippet.write color d.severity d.code (d.message.flatten "\n") l.file l.span file.text := by
  simp [written, addSource, hstyle, hfile]

end Reporter

namespace LexicalProgram

/-- What is wrong with a file is reported. -/
theorem diagnosticOf_mem_check (root : Path) (options : Options) {text : String} {p : Problem}
    (hp : p ∈ (Outline.ofTokens (Lexed.ofText text).tokens).problems) :
    diagnosticOf (SourceFile.ofText root.text text) p ∈
      (ofText root options text).1.check (SourceFile.ofText root.text text) := by
  rw [check_self]
  exact List.mem_map_of_mem hp

/-- Where only line feeds end lines, a report of the lexical engine begins with its position in the plain
style and has the position in the heading in the pretty style. Both styles name the same position exactly
if the report is not about the end of a text that ends in a line feed. -/
theorem same_position_iff {W : Type} (root : Path) (options : Options) (text : String)
    (hfeeds : Snippet.FeedsOnly text.toList) (d : Diagnostic)
    (hd : d ∈ (ofText root options text).1.check (SourceFile.ofText root.text text)) :
    ∃ l, d.location = some l ∧
      (∀ r : Reporter W, r.style = .plain → ∃ rest,
        (r.addSource (SourceFile.ofText root.text text)).written d l =
          placeText l.file (l.line, l.column) ++ ": " ++ rest) ∧
      (∀ (r : Reporter W) (color : Bool), r.style = .pretty color → ∃ width rows,
        (r.addSource (SourceFile.ofText root.text text)).written d l =
          Snippet.heading color d.severity d.code (d.message.flatten "\n")
            (placeText l.file (Snippet.position text.toList l.span)) width ++ rows) ∧
      (Snippet.position text.toList l.span = (l.line, l.column) ↔
        ¬(l.span.start = byteLength text.toList ∧ text.toList.getLast? = some '\n')) := by
  rw [check_self] at hd
  obtain ⟨l, hlocation, hl⟩ := isIn_of_mem_diagnostics root options text hd
  have hfile : l.file = (SourceFile.ofText root.text text).name :=
    file_of_mem_diagnostics root options text d hd l hlocation
  refine ⟨l, hlocation, fun r hstyle => ?_, fun r color hstyle => ?_, Snippet.position_eq_iff hfeeds hl⟩
  · have hplain : (r.addSource (SourceFile.ofText root.text text)).style = .plain := by
      rw [Reporter.addSource, hstyle]
      exact hstyle
    refine ⟨d.severity.name ++ ": " ++ d.message.flatten "\n" ++ "\n", ?_⟩
    rw [Reporter.written_plain hplain]
    simp only [String.append_assoc]
  · rw [Reporter.written_pretty hstyle hfile]
    exact Snippet.exists_write_eq ..

/-- A bracket on a second line that closes nothing. -/
theorem same_position_of_closing_bracket :
    Snippet.FeedsOnly "f();\né)".toList ∧
      ∃ d ∈ (ofText ⟨"a.ts"⟩ {} "f();\né)").1.check (SourceFile.ofText "a.ts" "f();\né)"),
        ∃ l, d.location = some l ∧ (l.line, l.column) = (1, 1) ∧
          Snippet.position "f();\né)".toList l.span = (l.line, l.column) := by
  have hfeeds : Snippet.FeedsOnly "f();\né)".toList := by decide
  have hproblem : ⟨⟨7, 8⟩, 1128, "Declaration or statement expected."⟩ ∈
      (Outline.ofTokens (Lexed.ofText "f();\né)").tokens).problems := by
    decide +kernel
  have hd := diagnosticOf_mem_check ⟨"a.ts"⟩ {} hproblem
  obtain ⟨l, hlocation, -, -, hiff⟩ := same_position_iff (W := Sink) ⟨"a.ts"⟩ {} _ hfeeds _ hd
  have hl := Option.some.inj hlocation
  refine ⟨hfeeds, _, hd, l, hlocation, ?_, hiff.mpr ?_⟩
  · rw [← hl]
    decide +kernel
  · rw [← hl]
    decide +kernel

/-- A call that is not closed before the end of a text that ends in a line feed. -/
theorem end_behind_feed_has_two_positions :
    Snippet.FeedsOnly "f(\n".toList ∧
      ∃ d ∈ (ofText ⟨"a.ts"⟩ {} "f(\n").1.check (SourceFile.ofText "a.ts" "f(\n"),
        ∃ l, d.location = some l ∧
          (({ sink := {} } : Reporter).addSource (SourceFile.ofText "a.ts" "f(\n")).written d l =
            "a.ts:2:1: error: ')' expected.\n" ∧
          (({ sink := {}, style := .pretty false } : Reporter).addSource
              (SourceFile.ofText "a.ts" "f(\n")).written d l =
            "[TS1005] Error: ')' expected.\n   ╭─[ a.ts:1:4 ]\n   │\n 1 │ f(\n───╯\n" := by
  have hfeeds : Snippet.FeedsOnly "f(\n".toList := by decide
  have hproblem : ⟨⟨3, 3⟩, 1005, "')' expected."⟩ ∈
      (Outline.ofTokens (Lexed.ofText "f(\n").tokens).problems := by
    decide +kernel
  refine ⟨hfeeds, _, diagnosticOf_mem_check ⟨"a.ts"⟩ {} hproblem, _, rfl, ?_, ?_⟩
  · decide +kernel
  · decide +kernel

end LexicalProgram

end ModuleBuild
