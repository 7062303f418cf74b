import ModuleBuild.Engine.Lexical
import ModuleBuild.Proofs.Outline.Delimiters
import ModuleBuild.Proofs.Source.LineTable
import ModuleBuild.Proofs.Token.Places

/-!
# What the engine reports

Every problem of a file is about a token or about the end of the text. Its place can therefore be told
by a line and a column, and the problems, which are in the order of their offsets, are in the order of
lines and columns too.

Main statements: `LexicalProgram.isIn_of_mem_diagnostics`, about the places of what is reported;
`pairwise_diagnostics`, about the order; and `perm_diagnostics`, about what is reported.
-/

namespace ModuleBuild

open Text

/-! ## Where problems are -/

namespace Outline

/-- Every problem is about one of the tokens, the last of which stands at the end of the text. -/
theorem exists_token_of_mem_problems {ts : List Token} (hts : ts ≠ []) {p : Problem}
    (h : p ∈ (ofTokens ts).problems) : ∃ t ∈ ts, p.span = t.span := by
  rw [ofTokens, List.mem_mergeSort, problemsOf, List.mem_append] at h
  rcases h with h | h
  · obtain ⟨t, ht, hp⟩ := List.mem_filterMap.mp h
    refine ⟨t, ht, ?_⟩
    rw [Problem.ofError?] at hp
    split at hp
    · rw [← Option.some.inj hp]
    · cases hp
  · rcases Problem.span_of_mem_ofDelimiters h with hspan | ⟨t, ht, hspan⟩
    · refine ⟨ts.getLast hts, List.getLast_mem hts, ?_⟩
      rw [hspan, endSpan, List.getLast?_eq_some_getLast hts]
      rfl
    · exact ⟨t, (List.mem_filter.mp ht).1, hspan⟩

theorem pairwise_problems (ts : List Token) :
    (ofTokens ts).problems.Pairwise fun p q => p.span.start ≤ q.span.start := by
  have hsorted : (ofTokens ts).problems.Pairwise
      fun p q => decide (p.span.start ≤ q.span.start) = true :=
    List.pairwise_mergeSort (fun p q r => by simpa using Nat.le_trans)
      (fun p q => by simpa using Nat.le_total ..) _
  exact hsorted.imp (by simp)

end Outline

theorem Problem.fits_of_mem_problems {text : String} {p : Problem}
    (h : p ∈ (Outline.ofTokens (Lexed.ofText text).tokens).problems) : p.span.Fits text.toList := by
  have htokens : (Lexed.ofText text).tokens ≠ [] := by
    rw [Lexed.tokens_ofText]
    simp
  obtain ⟨t, ht, hspan⟩ := Outline.exists_token_of_mem_problems htokens h
  rw [hspan]
  exact Lexed.fits_of_mem_tokens ht

/-! ## Lines and columns -/

namespace Location

/-- The location tells a place of the text: its span lies in the text and between characters, its line
is the number of line feeds before it, and its column the number of characters behind the last of
them. -/
structure IsIn (cs : List Char) (l : Location) : Prop where
  fits : l.span.Fits cs
  position : ∃ before after, cs = before ++ after ∧ l.span.start = byteLength before ∧
    l.line = before.count '\n' ∧ l.column = (before.rtakeWhile (· != '\n')).length

/-- The first place does not come behind the second one. -/
def Precedes (l m : Location) : Prop := l.line < m.line ∨ l.line = m.line ∧ l.column ≤ m.column

theorem precedes_of_start_le {cs : List Char} {l m : Location} (hl : l.IsIn cs) (hm : m.IsIn cs)
    (hle : l.span.start ≤ m.span.start) : l.Precedes m := by
  obtain ⟨before, after, hsplit, hstart, hline, hcolumn⟩ := hl.position
  obtain ⟨before', after', hsplit', hstart', hline', hcolumn'⟩ := hm.position
  rw [hstart, hstart'] at hle
  obtain ⟨between, rfl, -⟩ := exists_append_of_le (hsplit.symm.trans hsplit') hle
  rw [Precedes, hline, hline', hcolumn, hcolumn']
  exact LineTable.precedes_append before between

end Location

theorem SourceFile.isIn_location (file : SourceFile) {s : Span} (hs : s.Fits file.text.toList) :
    (file.location s).IsIn file.text.toList := by
  obtain ⟨before, after, hsplit, hstart⟩ := hs.start
  have hposition := LineTable.position_append hsplit
  rw [← hstart] at hposition
  refine ⟨hs, before, after, hsplit, hstart, ?_, ?_⟩
  · exact congrArg Prod.fst hposition
  · exact congrArg Prod.snd hposition

namespace LexicalProgram

variable (root : Path) (options : Options) (text : String)

/-- Whatever is reported has a place in the text. -/
theorem isIn_of_mem_diagnostics {d : Diagnostic} (h : d ∈ (ofText root options text).1.diagnostics) :
    ∃ l, d.location = some l ∧ l.IsIn text.toList := by
  obtain ⟨p, hp, rfl⟩ := List.mem_map.mp h
  exact ⟨_, rfl, (ofText root options text).1.file.isIn_location (Problem.fits_of_mem_problems hp)⟩

/-- Whatever is reported is in the file. -/
theorem file_of_mem_diagnostics :
    ∀ d ∈ (ofText root options text).1.diagnostics, ∀ l ∈ d.location, l.file = root.text := by
  intro d hd l hl
  obtain ⟨p, -, rfl⟩ := List.mem_map.mp hd
  obtain rfl := Option.some.inj hl
  rfl

theorem pairwise_diagnostics :
    (ofText root options text).1.diagnostics.Pairwise fun d e =>
      ∀ l ∈ d.location, ∀ m ∈ e.location, l.Precedes m := by
  show (List.map _ _).Pairwise _
  rw [List.pairwise_map]
  refine (Outline.pairwise_problems _).imp_of_mem fun {p q} hp hq hle l hl m hm => ?_
  obtain rfl := Option.some.inj hl
  obtain rfl := Option.some.inj hm
  exact Location.precedes_of_start_le
    ((ofText root options text).1.file.isIn_location (Problem.fits_of_mem_problems hp))
    ((ofText root options text).1.file.isIn_location (Problem.fits_of_mem_problems hq)) hle

/-- One report for each error token, and those about the delimiters. -/
theorem perm_diagnostics :
    (ofText root options text).1.diagnostics.Perm
      (((Lexed.ofText text).tokens.filterMap Problem.ofError? ++
        Problem.ofDelimiters ⟨byteLength text.toList, byteLength text.toList⟩ []
          (Outline.significant (Lexed.ofText text).tokens)).map
            (diagnosticOf (SourceFile.ofText root.text text))) := by
  have hend : Outline.endSpan (Lexed.ofText text).tokens =
      ⟨byteLength text.toList, byteLength text.toList⟩ := by
    rw [Outline.endSpan, Lexed.tokens_ofText, List.getLast?_concat]
    rfl
  rw [← hend]
  exact (List.mergeSort_perm _ _).map _

end LexicalProgram

end ModuleBuild
