import ModuleBuild.Proofs.Engine.Remainder
import ModuleBuild.Proofs.Outline.Delimiters

/-!
# Erasing imports of types

An erased import takes its tokens with it, and no other token goes. But the tokens behind it are then
read behind those before it: what stands in front of a slash is no longer the import, so that a regular
expression can turn into a division and a division into a regular expression, and where nothing
separates the import from its neighbours they can run together.

Main statements: `LexicalProgram.emit_without_imports`, which says exactly when the rest of the program
is read as before; and `import_separated_its_neighbours`, which shows files that pass the check and
are emitted as other programs.
-/

namespace ModuleBuild

open Text

/-- The spans of the imports of types only. -/
def SourceFile.typeImports (f : SourceFile) : List Span :=
  (f.statements.filter Statement.isTypeOnlyImport).map Statement.span

/-- The tokens that no import of types only covers. -/
def SourceFile.tokensOutside (f : SourceFile) : List Token :=
  (Lexed.ofText f.text).tokens.filter fun t => !Span.covered f.typeImports t.span.start

namespace Erasure

variable {name text : String}

theorem covered_typeImports_iff {file : SourceFile} {n : Nat} :
    Span.covered file.typeImports n = true ↔
      ∃ s ∈ file.statements, s.isTypeOnlyImport = true ∧ s.span.Covers n := by
  simp [Span.covered_iff, SourceFile.typeImports, and_assoc]

/-- If comments stay, a token is erased exactly if it belongs to an import of types only. -/
theorem covered_spans_eq_covered_typeImports {p : Piece} {s : Span}
    (hp : (p, s) ∈ Piece.placed (Lexer.programStart text) (Piece.ofText text))
    (htoken : p.kind ≠ .blank) :
    Span.covered (spans (SourceFile.ofText name text) false) s.start =
      Span.covered (SourceFile.ofText name text).typeImports s.start := by
  rw [Bool.eq_iff_iff, covered_spans_iff, covered_typeImports_iff]
  constructor
  · intro herased
    cases herased with
    | statement hu htypes hcovers => exact ⟨_, hu, htypes, hcovers⟩
    | restOfLine _ _ hr _ hcovers =>
      exact absurd (kind_eq_blank_of_isRestOfLine hp hr hcovers) htoken
    | comment hremove _ _ => cases hremove
  · rintro ⟨u, hu, htypes, hcovers⟩
    exact .statement hu htypes hcovers

theorem content_kept_eq (name text : String) :
    (kept (SourceFile.ofText name text) false).filterMap Piece.content? ++ [(.endOfText, "")] =
      (SourceFile.ofText name text).tokensOutside.map Token.content := by
  have hend : Span.covered (SourceFile.ofText name text).typeImports (byteLength text.toList) = false := by
    rw [← Bool.not_eq_true, covered_typeImports_iff]
    rintro ⟨s, hs, -, hcovers⟩
    obtain ⟨before, after, htext, hstop⟩ := (SourceFile.fits_of_mem_statements hs).stop
    have hhigh := hcovers.2
    rw [htext, byteLength_append] at hhigh
    omega
  have htokens : ((Piece.tokens (Lexer.programStart text) (Piece.ofText text)).filter fun t =>
      !Span.covered (SourceFile.ofText name text).typeImports t.span.start) =
      (Piece.tokens (Lexer.programStart text) (Piece.ofText text)).filter fun t =>
        !Span.covered (spans (SourceFile.ofText name text) false) t.span.start := by
    refine List.filter_congr fun t ht => ?_
    obtain ⟨⟨p, s⟩, hp, htoken⟩ := List.mem_filterMap.mp ht
    have hkind : p.kind ≠ .blank := by
      intro hblank
      have hnone := Piece.kind_of_token? htoken
      simp [Piece.tokenKind?, hblank] at hnone
    rw [Piece.span_of_token? htoken, Piece.spanAt_start,
      covered_spans_eq_covered_typeImports hp hkind]
  have hcontent := Piece.map_content_filter_tokens
    (fun n => !Span.covered (spans (SourceFile.ofText name text) false) n)
    (Lexer.programStart text) (Piece.ofText text)
  rw [SourceFile.tokensOutside]
  show _ = ((Lexed.ofText text).tokens.filter _).map Token.content
  rw [Lexed.tokens_ofText, List.filter_append, List.map_append, htokens, hcontent]
  have hlast : [Token.atEnd (byteLength text.toList)].filter (fun t =>
      !Span.covered (SourceFile.ofText name text).typeImports t.span.start) =
        [Token.atEnd (byteLength text.toList)] := by
    simp [Token.atEnd, hend]
  rw [hlast]
  rfl

end Erasure

namespace LexicalProgram

/-- A text about which nothing is reported and whose comments stay is emitted without its imports of
types only. What is left of it is read as before, piece by piece, exactly if the line at its front that
names an interpreter stays what it was, no piece takes in the beginning of the one that now stands
behind it, and every slash and closing brace still has the meaning that it had. Then the tokens are
those outside the imports. -/
theorem emit_without_imports (root : Path) (options : Options) (text : String)
    (hclean : (ofText root options text).1.diagnostics = [])
    (hemit : options.isSet "noEmit" = false) (hkeep : options.isSet "removeComments" = false) :
    ∃ out : String,
      (ofText root options text).1.emit (SourceFile.ofText root.text text) =
        { outputs := [⟨(ofText root options text).1.outputName, out⟩] } ∧
      (Piece.ofText out = Erasure.kept (SourceFile.ofText root.text text) false ↔
        Lexer.interpreterLine out.toList = Lexer.interpreterLine text.toList ∧
          Piece.Apart (Erasure.kept (SourceFile.ofText root.text text) false) ∧
          Context.AdmitsAll {} (Erasure.kept (SourceFile.ofText root.text text) false)) ∧
      (Piece.ofText out = Erasure.kept (SourceFile.ofText root.text text) false →
        (Lexed.ofText out).tokens.map Token.content =
          (SourceFile.ofText root.text text).tokensOutside.map Token.content) := by
  have herror := ((diagnostics_eq_nil_iff root options text).mp hclean).1
  have houtput : (ofText root options text).1.emit (SourceFile.ofText root.text text) =
      { outputs := [⟨(ofText root options text).1.outputName, Erasure.erase
          (SourceFile.ofText root.text text) (options.isSet "removeComments")⟩] } :=
    emit_ofText (ofText root options text).1 hemit text
  rw [hkeep] at houtput
  refine ⟨_, houtput, Erasure.ofText_erase_eq_kept_iff fun p hp =>
    Piece.legible_of_mem_ofText herror hp, fun hpieces => ?_⟩
  rw [Lexed.map_content_tokens, hpieces, Erasure.content_kept_eq]

/-- An import on a line of its own, between two calls. -/
theorem emit_calls_without_import :
    (ofText ⟨"a.ts"⟩ {} "a();\nimport type \x7bT\x7d from 't';\nb();").1.diagnostics = [] ∧
    ((ofText ⟨"a.ts"⟩ {} "a();\nimport type \x7bT\x7d from 't';\nb();").1.emit
      (SourceFile.ofText "a.ts" "a();\nimport type \x7bT\x7d from 't';\nb();")).outputs =
        [⟨⟨"a.js"⟩, "a();\nb();"⟩] ∧
    (Lexed.ofText "a();\nb();").tokens.map Token.content =
      (SourceFile.ofText "a.ts" "a();\nimport type \x7bT\x7d from 't';\nb();").tokensOutside.map
        Token.content := by
  have hclean : (ofText ⟨"a.ts"⟩ {} "a();\nimport type \x7bT\x7d from 't';\nb();").1.diagnostics =
      [] := by
    rw [diagnostics_eq_nil_iff]
    decide +kernel
  have hemitted : ((ofText ⟨"a.ts"⟩ {} "a();\nimport type \x7bT\x7d from 't';\nb();").1.emit
      (SourceFile.ofText "a.ts" "a();\nimport type \x7bT\x7d from 't';\nb();")).outputs =
        [⟨⟨"a.js"⟩, "a();\nb();"⟩] := by decide +kernel
  obtain ⟨out, houtput, hiff, hcontent⟩ :=
    emit_without_imports ⟨"a.ts"⟩ {} "a();\nimport type \x7bT\x7d from 't';\nb();" hclean
      (by decide) (by decide)
  have hout := hemitted.symm.trans (congrArg Emission.outputs houtput)
  obtain rfl : "a();\nb();" = out := congrArg EmittedFile.text (List.cons.inj hout).1
  exact ⟨hclean, hemitted, hcontent (hiff.mpr (by decide +kernel))⟩

/-- Behind an erased import a regular expression turns into a division, if the statement in front of it
has no semicolon; and two slashes that an import kept apart turn into a comment. Nothing is reported in
either case. -/
theorem import_separated_its_neighbours :
    ((ofText ⟨"a.ts"⟩ {} "let x = y\nimport type \x7bT\x7d from 't';\n/re/.test(x);").1.diagnostics =
        [] ∧
      ((ofText ⟨"a.ts"⟩ {} "").1.emit (SourceFile.ofText "a.ts"
        "let x = y\nimport type \x7bT\x7d from 't';\n/re/.test(x);")).outputs =
          [⟨⟨"a.js"⟩, "let x = y\n/re/.test(x);"⟩] ∧
      (Lexed.ofText "let x = y\n/re/.test(x);").tokens.map Token.content ≠
        (SourceFile.ofText "a.ts"
          "let x = y\nimport type \x7bT\x7d from 't';\n/re/.test(x);").tokensOutside.map
            Token.content) ∧
    ((ofText ⟨"a.ts"⟩ {} "a /import type \x7bT\x7d from 'x';/ b/").1.diagnostics = [] ∧
      ((ofText ⟨"a.ts"⟩ {} "").1.emit
        (SourceFile.ofText "a.ts" "a /import type \x7bT\x7d from 'x';/ b/")).outputs =
          [⟨⟨"a.js"⟩, "a // b/"⟩] ∧
      (Lexed.ofText "a // b/").tokens.map Token.content ≠
        (SourceFile.ofText "a.ts" "a /import type \x7bT\x7d from 'x';/ b/").tokensOutside.map
          Token.content) := by
  rw [diagnostics_eq_nil_iff, diagnostics_eq_nil_iff]
  decide +kernel

end LexicalProgram

end ModuleBuild
