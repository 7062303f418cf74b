import ModuleBuild.Proofs.Engine.Remainder

/-!
# Removing comments

Comments change nothing about how the text around them is read, so a text without its comments is read
as before unless what stood around a comment runs together, or a comment hid what now looks like a line
that names an interpreter. No blank is left where a comment was, so both can happen.

Main statements: `LexicalProgram.emit_without_comments_iff`, which is the exact condition under which
the tokens stay the same; and `comment_between_words_joins_them`, a program that does not meet it.
-/

namespace ModuleBuild

open Text

namespace Piece

/-- The pieces of a text other than comments. -/
def withoutComments (text : String) : List Piece := (ofText text).filter fun p => !p.isComment

variable {text out : String}

theorem legible_of_mem_withoutComments (h : ∀ t ∈ (Lexed.ofText text).tokens, t.kind ≠ .error)
    {p : Piece} (hp : p ∈ withoutComments text) : p.Legible ∧ p.isComment = false := by
  obtain ⟨hp, hcomment⟩ := List.mem_filter.mp hp
  exact ⟨legible_of_mem_ofText h hp, by simpa using hcomment⟩

theorem content_withoutComments (text : String) :
    (withoutComments text).filterMap content? = (ofText text).filterMap content? := by
  rw [withoutComments, List.filterMap_filter]
  refine List.filterMap_congr fun p _ => ?_
  cases hcomment : p.isComment with
  | true => simp [content?_eq_none_of_isComment hcomment]
  | false => simp

/-- Comments change nothing about how what stands behind them is read. -/
theorem admitsAll_withoutComments (text : String) : Context.AdmitsAll {} (withoutComments text) := by
  refine (Context.admitsAll_pieces {} (Lexer.program text)).filter fun p _ hcomment => ?_
  have hcomment : p.isComment = true := by simpa using hcomment
  obtain ⟨kind, text⟩ := p
  cases kind <;> simp [isComment] at hcomment <;> rfl

/-- If a text says what another one says that has no errors, and it has no comments, all of its pieces
are blanks and tokens. -/
theorem legible_of_content_eq (herror : ∀ t ∈ (Lexed.ofText text).tokens, t.kind ≠ .error)
    (hcontent : (Lexed.ofText out).tokens.map Token.content =
      (Lexed.ofText text).tokens.map Token.content)
    (hcomments : (Lexed.ofText out).comments = []) {p : Piece} (hp : p ∈ ofText out) :
    p.Legible ∧ p.isComment = false := by
  refine ⟨legible_of_mem_ofText (fun t ht => ?_) hp, Lexed.comments_eq_nil_iff.mp hcomments p hp⟩
  have hmem : t.content ∈ (Lexed.ofText text).tokens.map Token.content := by
    rw [← hcontent]
    exact List.mem_map_of_mem ht
  obtain ⟨u, hu, hsame⟩ := List.mem_map.mp hmem
  have hkind : u.kind = t.kind := congrArg Prod.fst hsame
  exact hkind ▸ herror u hu

theorem head?_withoutComments (hline : Lexer.interpreterLine text.toList ≠ []) :
    ∀ d, ((withoutComments text).flatMap Piece.text).head? = some d → d = '\n' := by
  intro d hd
  have hprogram := Lexer.head?_program hline
  rw [withoutComments, ofText] at hd
  cases htext : Lexer.program text with
  | nil =>
    rw [htext] at hd
    simp at hd
  | cons c cs =>
    rw [htext] at hd hprogram
    obtain rfl : c = '\n' := hprogram c rfl
    rw [Context.pieces_cons, Context.read_blank {} (by decide), List.filter_cons_of_pos (by rfl),
      List.flatMap_cons] at hd
    exact (Option.some.inj hd).symm

/-- A text that says all that is left of another one has no more of a first line than that. -/
theorem interpreterLine_eq_of_content_eq
    (hout : out.toList = Lexer.interpreterLine text.toList ++ (withoutComments text).flatMap Piece.text)
    (hstays : ∀ p ∈ withoutComments text, p.Legible ∧ p.isComment = false)
    (hclean : ∀ p ∈ ofText out, p.Legible ∧ p.isComment = false)
    (hcontent : (ofText out).filterMap content? = (withoutComments text).filterMap content?) :
    Lexer.interpreterLine out.toList = Lexer.interpreterLine text.toList := by
  by_cases hnone : Lexer.interpreterLine text.toList = []
  · -- All that can be seen of the text is in its tokens, so there is nothing left for a first line.
    have hvisible : visible out.toList = visible (Lexer.program out) := by
      rw [hout, hnone, List.nil_append, visible_flatMap_text hstays, ← hcontent,
        ← visible_flatMap_text hclean]
      exact congrArg visible (Context.flatMap_text_pieces ..)
    rw [← Lexer.interpreterLine_append_program out, visible_append] at hvisible
    rw [hnone]
    exact Lexer.interpreterLine_eq_nil (List.append_left_eq_self.mp hvisible)
  · rw [hout]
    exact Lexer.interpreterLine_append hnone (head?_withoutComments hnone)

end Piece

namespace Erasure

variable {name text : String}

/-- Without imports of types only, what is left are the pieces other than comments. -/
theorem kept_eq_withoutComments
    (htypes : ∀ s ∈ (SourceFile.ofText name text).statements, s.isTypeOnlyImport = false) :
    kept (SourceFile.ofText name text) true = Piece.withoutComments text := by
  have hcovered : ∀ x ∈ Piece.placed (Lexer.programStart text) (Piece.ofText text),
      Span.covered (spans (SourceFile.ofText name text) true) x.2.start = x.1.isComment := by
    intro x hx
    rw [Bool.eq_iff_iff, covered_spans_iff, ← covers_comment_iff hx]
    constructor
    · intro herased
      cases herased with
      | statement hs hs' _ | restOfLine hs hs' _ _ _ =>
        rw [htypes _ hs] at hs'
        cases hs'
      | comment _ hu hcovers => exact ⟨_, hu, hcovers⟩
    · rintro ⟨u, hu, hcovers⟩
      exact .comment rfl hu hcovers
  have hfilter : ((Piece.placed (Lexer.programStart text) (Piece.ofText text)).filter fun x =>
      !Span.covered (spans (SourceFile.ofText name text) true) x.2.start) =
      (Piece.placed (Lexer.programStart text) (Piece.ofText text)).filter fun x => !x.1.isComment :=
    List.filter_congr fun x hx => by rw [hcovered x hx]
  show (List.filter _ _).map _ = List.filter _ _
  conv_rhs => rw [← Piece.map_fst_placed (Lexer.programStart text) (Piece.ofText text)]
  rw [List.filter_map]
  exact congrArg (List.map _) hfilter

/-- Removing comments keeps what the tokens say exactly if the first line is read as before and no
piece takes in the beginning of the one that comes behind it. -/
theorem content_erase_eq_iff (herror : ∀ t ∈ (Lexed.ofText text).tokens, t.kind ≠ .error)
    (htypes : ∀ s ∈ (SourceFile.ofText name text).statements, s.isTypeOnlyImport = false) :
    ((Lexed.ofText (erase (SourceFile.ofText name text) true)).tokens.map Token.content =
        (Lexed.ofText text).tokens.map Token.content ∧
      (Lexed.ofText (erase (SourceFile.ofText name text) true)).comments = []) ↔
    Lexer.interpreterLine (erase (SourceFile.ofText name text) true).toList =
        Lexer.interpreterLine text.toList ∧
      Piece.Apart (Piece.withoutComments text) := by
  have hkept := kept_eq_withoutComments htypes
  have hout := erase_eq_kept name text true
  have hsame := @ofText_erase_eq_kept_iff name text true
    fun p hp => Piece.legible_of_mem_ofText herror hp
  rw [hkept] at hout hsame
  generalize erase (SourceFile.ofText name text) true = out at hout hsame ⊢
  have hstays : ∀ p ∈ Piece.withoutComments text, p.Legible ∧ p.isComment = false :=
    fun p hp => Piece.legible_of_mem_withoutComments herror hp
  have hcontent : (Lexed.ofText out).tokens.map Token.content =
        (Lexed.ofText text).tokens.map Token.content ↔
      (Piece.ofText out).filterMap Piece.content? =
        (Piece.withoutComments text).filterMap Piece.content? := by
    rw [Lexed.map_content_tokens, Lexed.map_content_tokens, Piece.content_withoutComments,
      List.append_left_inj]
  constructor
  · rintro ⟨htokens, hcomments⟩
    have hclean : ∀ p ∈ Piece.ofText out, p.Legible ∧ p.isComment = false :=
      fun p hp => Piece.legible_of_content_eq herror htokens hcomments hp
    have hline := Piece.interpreterLine_eq_of_content_eq hout hstays hclean (hcontent.mp htokens)
    have htext : (Piece.ofText out).flatMap Piece.text =
        (Piece.withoutComments text).flatMap Piece.text := by
      rw [← (Lexer.program_eq_iff hout).mpr hline]
      exact Context.flatMap_text_pieces ..
    have hpieces := Piece.eq_of_content_eq hclean hstays htext (hcontent.mp htokens)
    exact ⟨hline, (hsame.mp hpieces).2.1⟩
  · rintro ⟨hline, hapart⟩
    have hpieces := hsame.mpr ⟨hline, hapart, Piece.admitsAll_withoutComments text⟩
    refine ⟨hcontent.mpr (by rw [hpieces]), Lexed.comments_eq_nil_iff.mpr fun p hp => ?_⟩
    rw [hpieces] at hp
    exact (hstays p hp).2

end Erasure

namespace LexicalProgram

/-- A text without errors and without imports of types only is emitted with the same tokens and without
comments exactly if the line at its front that names an interpreter stays what it was, and no piece of
the text takes in the beginning of the one that stands behind it when the comments between them are
gone. -/
theorem emit_without_comments_iff (p : LexicalProgram) (hemit : p.options.isSet "noEmit" = false)
    (hremove : p.options.isSet "removeComments" = true) (text : String)
    (herror : ∀ t ∈ (Lexed.ofText text).tokens, t.kind ≠ .error)
    (htypes : ∀ s ∈ (SourceFile.ofText p.file.name text).statements, s.isTypeOnlyImport = false) :
    ∃ out : String,
      p.emit (SourceFile.ofText p.file.name text) = { outputs := [⟨p.outputName, out⟩] } ∧
      (((Lexed.ofText out).tokens.map Token.content = (Lexed.ofText text).tokens.map Token.content ∧
          (Lexed.ofText out).comments = []) ↔
        Lexer.interpreterLine out.toList = Lexer.interpreterLine text.toList ∧
          Piece.Apart (Piece.withoutComments text)) := by
  have houtput := p.emit_ofText hemit text
  rw [hremove] at houtput
  exact ⟨_, houtput, Erasure.content_erase_eq_iff herror htypes⟩

/-- A comment between a name and a parenthesis can be removed. -/
theorem emit_call_without_comment :
    (∀ t ∈ (Lexed.ofText "f/*1*/(a);").tokens, t.kind ≠ .error) ∧
    (∀ s ∈ (SourceFile.ofText "a.ts" "f/*1*/(a);").statements, s.isTypeOnlyImport = false) ∧
    ((ofText ⟨"a.ts"⟩ ⟨[("removeComments", .bool true)]⟩ "").1.emit
      (SourceFile.ofText "a.ts" "f/*1*/(a);")).outputs = [⟨⟨"a.js"⟩, "f(a);"⟩] ∧
    (Lexed.ofText "f(a);").tokens.map Token.content =
      (Lexed.ofText "f/*1*/(a);").tokens.map Token.content ∧
    (Lexed.ofText "f(a);").comments = [] := by
  have herror : ∀ t ∈ (Lexed.ofText "f/*1*/(a);").tokens, t.kind ≠ .error := by decide +kernel
  have htypes : ∀ s ∈ (SourceFile.ofText "a.ts" "f/*1*/(a);").statements,
      s.isTypeOnlyImport = false := by decide +kernel
  have hemitted : ((ofText ⟨"a.ts"⟩ ⟨[("removeComments", .bool true)]⟩ "").1.emit
      (SourceFile.ofText "a.ts" "f/*1*/(a);")).outputs = [⟨⟨"a.js"⟩, "f(a);"⟩] := by decide +kernel
  obtain ⟨out, houtput, hiff⟩ :=
    emit_without_comments_iff (ofText ⟨"a.ts"⟩ ⟨[("removeComments", .bool true)]⟩ "").1
      (by decide) (by decide) "f/*1*/(a);" herror htypes
  have hout := hemitted.symm.trans (congrArg Emission.outputs houtput)
  obtain rfl : "f(a);" = out := congrArg EmittedFile.text (List.cons.inj hout).1
  exact ⟨herror, htypes, hemitted, hiff.mpr (by decide +kernel)⟩

/-- Where a comment is all that stands between a keyword and a name, they become one name. -/
theorem comment_between_words_joins_them :
    (∀ t ∈ (Lexed.ofText "return/*why*/x;").tokens, t.kind ≠ .error) ∧
    (∀ s ∈ (SourceFile.ofText "a.ts" "return/*why*/x;").statements, s.isTypeOnlyImport = false) ∧
    ((ofText ⟨"a.ts"⟩ ⟨[("removeComments", .bool true)]⟩ "").1.emit
      (SourceFile.ofText "a.ts" "return/*why*/x;")).outputs = [⟨⟨"a.js"⟩, "returnx;"⟩] ∧
    (Lexed.ofText "returnx;").tokens.map Token.content ≠
      (Lexed.ofText "return/*why*/x;").tokens.map Token.content := by
  decide +kernel

end LexicalProgram

end ModuleBuild
