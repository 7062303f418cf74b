import Mathlib.Data.List.TakeWhile
import ModuleBuild.Engine.Lexical
import ModuleBuild.Proofs.Text.Cutting

/-!
# What compiling erases

The spans that are left out of a file may overlap: comments stand inside of erased imports and between
them and the ends of their lines. What is erased is nevertheless simple to say, byte by byte
(`Erasure.Erased`), and since all spans end between characters, nothing can go wrong when the text is
cut.

Main statements: `Erasure.covered_spans_iff`, by which the spans cover what is to be erased;
`Erasure.cut?_spans`, by which cutting them out succeeds; and `LexicalProgram.emit_leaves_out`, which is
about the emitted bytes.
-/

namespace ModuleBuild

open Text

/-- The rest of a line on which only blanks are left, with its line feed. -/
def Span.IsRestOfLine (cs : List Char) (s : Span) : Prop :=
  ∃ before blanks after, cs = before ++ (blanks ++ '\n' :: after) ∧
    s = ⟨byteLength before, byteLength (before ++ (blanks ++ ['\n']))⟩ ∧
    ∀ c ∈ blanks, isBlank c = true ∧ c ≠ '\n'

theorem Span.IsRestOfLine.fits {cs : List Char} {s : Span} (h : s.IsRestOfLine cs) : s.Fits cs := by
  obtain ⟨before, blanks, after, rfl, rfl, -⟩ := h
  have hsplit : before ++ (blanks ++ '\n' :: after) = before ++ (blanks ++ ['\n']) ++ after := by simp
  exact ⟨by simp, ⟨before, _, rfl, rfl⟩, ⟨_, after, hsplit, rfl⟩⟩

namespace Erasure

/-! ## The rest of a line -/

theorem withRestOfLine_of_isRestOfLine {cs : List Char} {s r : Span} (hr : r.IsRestOfLine cs)
    (hstart : r.start = s.stop) : withRestOfLine cs s = ⟨s.start, r.stop⟩ := by
  obtain ⟨before, blanks, after, rfl, rfl, hblanks⟩ := hr
  have hline : (blanks ++ '\n' :: after).takeWhile (· != '\n') = blanks := by
    have hall : ∀ c ∈ blanks, (c != '\n') = true := fun c hc => by simpa using (hblanks c hc).2
    rw [List.takeWhile_append_of_pos hall]
    simp
  have hblank : blanks.all isBlank = true := List.all_eq_true.mpr fun c hc => (hblanks c hc).1
  have hsize : '\n'.utf8Size = 1 := by decide
  rw [withRestOfLine, ← hstart, dropBytes?_append, Option.getD_some]
  simp only [hline, hblank]
  simp [hsize, Nat.add_assoc]

theorem withRestOfLine_eq_self {cs : List Char} {s : Span} (hs : IsBoundary cs s.stop)
    (h : ∀ r : Span, r.IsRestOfLine cs → r.start ≠ s.stop) : withRestOfLine cs s = s := by
  obtain ⟨before, rest, rfl, hstop⟩ := hs
  rw [withRestOfLine, hstop, dropBytes?_append, Option.getD_some]
  split
  · next hline =>
    simp only [Bool.and_eq_true, decide_eq_true_eq, List.all_eq_true] at hline
    obtain ⟨hshort, hblank⟩ := hline
    -- A line feed stands behind the blanks, so they are the rest of a line.
    cases hrest : rest.dropWhile (· != '\n') with
    | nil =>
      have hlength := congrArg List.length (List.takeWhile_append_dropWhile (p := (· != '\n')) (l := rest))
      rw [hrest, List.append_nil] at hlength
      omega
    | cons d after =>
      have hhead := List.head?_dropWhile_not (· != '\n') rest
      rw [hrest] at hhead
      obtain rfl : d = '\n' := by simpa using hhead
      have hr : Span.IsRestOfLine (before ++ rest)
          ⟨byteLength before, byteLength (before ++ (rest.takeWhile (· != '\n') ++ ['\n']))⟩ := by
        refine ⟨before, rest.takeWhile (· != '\n'), after, ?_, rfl, fun c hc => ⟨hblank c hc, ?_⟩⟩
        · rw [← hrest, List.takeWhile_append_dropWhile]
        · simpa using List.mem_takeWhile_imp hc
      exact absurd hstop.symm (h _ hr)
  · rfl

/-- With the rest of its line a span covers its own bytes and those of that rest. -/
theorem covers_withRestOfLine_iff {cs : List Char} {s : Span} (hs : s.Fits cs) {n : Nat} :
    (withRestOfLine cs s).Covers n ↔
      s.Covers n ∨ ∃ r : Span, r.IsRestOfLine cs ∧ r.start = s.stop ∧ r.Covers n := by
  by_cases h : ∃ r : Span, r.IsRestOfLine cs ∧ r.start = s.stop
  · obtain ⟨r, hr, hstart⟩ := h
    have hle := hs.start_le_stop
    have hrle := hr.fits.start_le_stop
    rw [withRestOfLine_of_isRestOfLine hr hstart]
    constructor
    · rintro ⟨hlow, hhigh⟩
      by_cases hn : n < s.stop
      · exact Or.inl ⟨hlow, hn⟩
      · exact Or.inr ⟨r, hr, hstart, by omega, hhigh⟩
    · rintro (⟨hlow, hhigh⟩ | ⟨r', hr', hstart', hcovers⟩)
      · exact ⟨hlow, show n < r.stop by omega⟩
      · have hsame : r.stop = r'.stop := by
          have heq := withRestOfLine_of_isRestOfLine hr' hstart'
          rw [withRestOfLine_of_isRestOfLine hr hstart] at heq
          exact (Span.mk.inj heq).2
        obtain ⟨hlow, hhigh⟩ := hcovers
        exact ⟨show s.start ≤ n by omega, show n < r.stop by omega⟩
  · rw [withRestOfLine_eq_self hs.stop fun r hr hstart => h ⟨r, hr, hstart⟩]
    refine ⟨Or.inl, ?_⟩
    rintro (hcovers | ⟨r, hr, hstart, -⟩)
    · exact hcovers
    · exact absurd ⟨r, hr, hstart⟩ h

theorem fits_withRestOfLine {cs : List Char} {s : Span} (hs : s.Fits cs) :
    (withRestOfLine cs s).Fits cs := by
  by_cases h : ∃ r : Span, r.IsRestOfLine cs ∧ r.start = s.stop
  · obtain ⟨r, hr, hstart⟩ := h
    have hle := hs.start_le_stop
    have hrle := hr.fits.start_le_stop
    rw [withRestOfLine_of_isRestOfLine hr hstart]
    exact ⟨show s.start ≤ r.stop by omega, hs.start, hr.fits.stop⟩
  · rwa [withRestOfLine_eq_self hs.stop fun r hr hstart => h ⟨r, hr, hstart⟩]

/-! ## All that is erased -/

/-- The bytes of a file that compiling it leaves out. -/
inductive Erased (file : SourceFile) (removeComments : Bool) (n : Nat) : Prop where
  /-- Those of an import of types only. -/
  | statement {s : Statement} (hs : s ∈ file.statements) (htypes : s.isTypeOnlyImport = true)
    (h : s.span.Covers n)
  /-- The rest of the line behind such an import, if only blanks are left on it. -/
  | restOfLine {s : Statement} (hs : s ∈ file.statements) (htypes : s.isTypeOnlyImport = true)
    {r : Span} (hr : r.IsRestOfLine file.text.toList) (hstart : r.start = s.span.stop)
    (h : r.Covers n)
  /-- Those of a comment, if comments are to be removed. -/
  | comment (hremove : removeComments = true) {s : Span} (hs : s ∈ file.comments) (h : s.Covers n)

theorem mem_spans_iff {file : SourceFile} {removeComments : Bool} {u : Span} :
    u ∈ spans file removeComments ↔
      (∃ s ∈ file.statements, s.isTypeOnlyImport = true ∧
        withRestOfLine file.text.toList s.span = u) ∨
      removeComments = true ∧ u ∈ file.comments := by
  rw [spans, List.mem_mergeSort, List.mem_append, List.mem_map]
  simp only [List.mem_filter, and_assoc]
  cases removeComments <;> simp

theorem pairwise_spans (file : SourceFile) (removeComments : Bool) :
    (spans file removeComments).Pairwise fun s u => s.start ≤ u.start := by
  have hsorted : (spans file removeComments).Pairwise fun s u => decide (s.start ≤ u.start) = true :=
    List.pairwise_mergeSort (fun a b c => by simpa using Nat.le_trans)
      (fun a b => by simpa using Nat.le_total ..) _
  exact hsorted.imp (by simp)

section

variable {name text : String} {removeComments : Bool}

theorem fits_of_mem_spans {u : Span}
    (h : u ∈ spans (SourceFile.ofText name text) removeComments) : u.Fits text.toList := by
  rcases mem_spans_iff.mp h with ⟨s, hs, -, rfl⟩ | ⟨-, hu⟩
  · exact fits_withRestOfLine (SourceFile.fits_of_mem_statements hs)
  · exact Lexed.fits_of_mem_comments hu

/-- The spans cover what is to be erased and nothing else. -/
theorem covered_spans_iff {n : Nat} :
    Span.covered (spans (SourceFile.ofText name text) removeComments) n = true ↔
      Erased (SourceFile.ofText name text) removeComments n := by
  rw [Span.covered_iff]
  constructor
  · rintro ⟨u, hu, hcovers⟩
    rcases mem_spans_iff.mp hu with ⟨s, hs, htypes, rfl⟩ | ⟨hremove, hu⟩
    · rcases (covers_withRestOfLine_iff (SourceFile.fits_of_mem_statements hs)).mp hcovers with
        hcovers | ⟨r, hr, hstart, hcovers⟩
      · exact .statement hs htypes hcovers
      · exact .restOfLine hs htypes hr hstart hcovers
    · exact .comment hremove hu hcovers
  · intro h
    cases h with
    | statement hs htypes h =>
      exact ⟨_, mem_spans_iff.mpr (Or.inl ⟨_, hs, htypes, rfl⟩),
        (covers_withRestOfLine_iff (SourceFile.fits_of_mem_statements hs)).mpr (Or.inl h)⟩
    | restOfLine hs htypes hr hstart h =>
      exact ⟨_, mem_spans_iff.mpr (Or.inl ⟨_, hs, htypes, rfl⟩),
        (covers_withRestOfLine_iff (SourceFile.fits_of_mem_statements hs)).mpr
          (Or.inr ⟨_, hr, hstart, h⟩)⟩
    | comment hremove hs h => exact ⟨_, mem_spans_iff.mpr (Or.inr ⟨hremove, hs⟩), h⟩

/-- Every cut falls between characters, in order; what stays is what no span covers. -/
theorem cut?_spans (name text : String) (removeComments : Bool) :
    cut? text.toList 0 (spans (SourceFile.ofText name text) removeComments) =
      some (without (Span.covered (spans (SourceFile.ofText name text) removeComments)) 0
        text.toList) :=
  @cut?_eq _ (pairwise_spans ..) [] text.toList fun _ hu => fits_of_mem_spans hu

theorem erase_ofText (name text : String) (removeComments : Bool) :
    (erase (SourceFile.ofText name text) removeComments).toList =
      without (Span.covered (spans (SourceFile.ofText name text) removeComments)) 0 text.toList := by
  have hcut := cut?_spans name text removeComments
  rw [erase, String.toList_ofList]
  exact congrArg (·.getD []) hcut

theorem leavesOut_erase (name text : String) (removeComments : Bool) :
    LeavesOut (Erased (SourceFile.ofText name text) removeComments) 0 text.toUTF8.data.toList
      (erase (SourceFile.ofText name text) removeComments).toUTF8.data.toList := by
  have herased : Erased (SourceFile.ofText name text) removeComments =
      fun n => Span.covered (spans (SourceFile.ofText name text) removeComments) n = true :=
    funext fun n => propext covered_spans_iff.symm
  rw [toUTF8_eq_bytes, toUTF8_eq_bytes, erase_ofText, herased]
  refine leavesOut_without fun before c after hsplit n hlow hhigh => ?_
  rw [Nat.zero_add] at hlow hhigh ⊢
  have hfits : ∀ u ∈ spans (SourceFile.ofText name text) removeComments,
      u.Fits (before ++ c :: after) := fun u hu => hsplit ▸ fits_of_mem_spans hu
  exact Span.covered_eq_of_fits hfits hlow hhigh

end

end Erasure

namespace LexicalProgram

theorem emit_ofText (p : LexicalProgram) (hemit : p.options.isSet "noEmit" = false) (text : String) :
    p.emit (SourceFile.ofText p.file.name text) =
      { outputs := [⟨p.outputName, Erasure.erase (SourceFile.ofText p.file.name text)
          (p.options.isSet "removeComments")⟩] } := by
  have howns : p.owns (SourceFile.ofText p.file.name text) = true := by
    simp [owns, SourceFile.ofText]
  rw [emit, howns, hemit]
  rfl

/-- A text that the engine compiles is emitted without its imports of types only, the blank rests of
their lines and, if this is asked for, its comments. Every byte besides them stays, in order. All cuts
fall between characters of the text, each at or behind the one before. -/
theorem emit_leaves_out (p : LexicalProgram) (hemit : p.options.isSet "noEmit" = false)
    (text : String) :
    ∃ out : String,
      p.emit (SourceFile.ofText p.file.name text) = { outputs := [⟨p.outputName, out⟩] } ∧
      LeavesOut
        (Erasure.Erased (SourceFile.ofText p.file.name text) (p.options.isSet "removeComments")) 0
        text.toUTF8.data.toList out.toUTF8.data.toList ∧
      (∀ s ∈ (SourceFile.ofText p.file.name text).statements, s.isTypeOnlyImport = true →
        (dropBytes? text.toList s.span.stop).isSome = true) ∧
      Erasure.cut? text.toList 0 (Erasure.spans (SourceFile.ofText p.file.name text)
        (p.options.isSet "removeComments")) = some out.toList := by
  refine ⟨_, p.emit_ofText hemit text, Erasure.leavesOut_erase .., ?_, ?_⟩
  · intro s hs _
    obtain ⟨before, after, htext, hstop⟩ := (SourceFile.fits_of_mem_statements hs).stop
    rw [htext, hstop, dropBytes?_append]
    rfl
  · rw [Erasure.cut?_spans, Erasure.erase_ofText]

/-- The import goes with the blank and the line feed behind it. -/
theorem emit_leaves_out_import_line :
    ((ofText ⟨"a.ts"⟩ {} "").1.options.isSet "noEmit" = false) ∧
    ((ofText ⟨"a.ts"⟩ {} "").1.emit
      (SourceFile.ofText "a.ts" "import type \x7bT\x7d from 't'; \nx;")).outputs =
        [⟨⟨"a.js"⟩, "x;"⟩] ∧
    LeavesOut (Erasure.Erased (SourceFile.ofText "a.ts" "import type \x7bT\x7d from 't'; \nx;") false) 0
      "import type \x7bT\x7d from 't'; \nx;".toUTF8.data.toList "x;".toUTF8.data.toList := by
  have hemitted : ((ofText ⟨"a.ts"⟩ {} "").1.emit
      (SourceFile.ofText "a.ts" "import type \x7bT\x7d from 't'; \nx;")).outputs =
        [⟨⟨"a.js"⟩, "x;"⟩] := by decide +kernel
  obtain ⟨out, houtput, hleaves, -⟩ :=
    emit_leaves_out (ofText ⟨"a.ts"⟩ {} "").1 (by decide) "import type \x7bT\x7d from 't'; \nx;"
  have hout := hemitted.symm.trans (congrArg Emission.outputs houtput)
  obtain rfl : "x;" = out := congrArg EmittedFile.text (List.cons.inj hout).1
  exact ⟨by decide, hemitted, hleaves⟩

end LexicalProgram

end ModuleBuild
