import ModuleBuild.Proofs.Outline.Frames
import ModuleBuild.Proofs.Outline.Grammar
import ModuleBuild.Proofs.Token.Contents

/-!
# Templates in templates

A template is made of chunks of characters and of expressions between `${` and a brace. What is asked of
an expression is asked of its text alone: that it can be read, that its brackets are balanced, that its
own templates are closed, and that it does not end in the middle of a line comment. Then it is read
inside the template as it is read alone, and the brace behind it goes on with the template. A template is
itself such an expression, so templates nest to any depth.

Main statements: `Template.Expression.exists_pieces_append`, about one expression inside any context in
which a substitution has just begun; `Template.lexed_ofText`, by which the tokens of a template are its
stretches and the tokens of its expressions; and `Template.toExpression`.
-/

namespace ModuleBuild

open Delimiter Text

namespace Template

/-- The characters of a template between its marks: pairs of a backslash and any character, and other
characters among which are no back quote and no `${`. -/
inductive IsChunk : List Char → Prop where
  | nil : IsChunk []
  | escape (c : Char) {cs : List Char} (h : IsChunk cs) : IsChunk ('\\' :: c :: cs)
  | plain {c : Char} {cs : List Char} (hescape : c ≠ '\\') (hquote : c ≠ '\x60')
    (hmark : c = '$' → cs.head? ≠ some '{') (h : IsChunk cs) : IsChunk (c :: cs)

abbrev Chunk : Type := { cs : List Char // IsChunk cs }

/-- The text of an expression, as it must be by itself to stand in a template. -/
structure Expression where
  text : String
  no_error : ∀ t ∈ (Lexed.ofText text).tokens, t.kind ≠ .error
  brackets_balanced : Token.BracketsBalanced (Lexed.ofText text).tokens
  templates_closed : WellNested (templateMarks (Delimiter.ofTokens (Lexed.ofText text).tokens))
  no_interpreter : ['#', '!'].isPrefixOf text.toList = false
  no_open_comment : ∀ s ∈ (Lexed.ofText text).comments, s.IsLineComment text.toList →
    s.stop ≠ byteLength text.toList

/-- A part of the text of a template. -/
inductive Segment where
  /-- A chunk with the marks around it. -/
  | stretch (text : List Char)
  | expression (e : Expression)

end Template

/-- A template literal: a chunk, and further ones with an expression in front of each. -/
structure Template where
  head : Template.Chunk
  parts : List (Template.Expression × Template.Chunk)

namespace Template

/-! ## What a template should be read as -/

def text (t : Template) : String :=
  String.ofList ('\x60' :: t.head.val ++
    t.parts.flatMap (fun x => '$' :: '{' :: x.1.text.toList ++ '}' :: x.2.val) ++ ['\x60'])

/-- The segments from the character `opening` and the chunk behind it on. -/
def segmentsFrom (opening : Char) (chunk : Chunk) : List (Expression × Chunk) → List Segment
  | [] => [.stretch (opening :: chunk.val ++ ['\x60'])]
  | (e, next) :: parts =>
    .stretch (opening :: chunk.val ++ ['$', '{']) :: .expression e :: segmentsFrom '}' next parts

def segments (t : Template) : List Segment := segmentsFrom '\x60' t.head t.parts

namespace Segment

def text : Segment → List Char
  | stretch text => text
  | expression e => e.text.toList

/-- The tokens of a segment that begins at `offset`: a stretch is one token, and an expression has the
tokens that it has by itself. -/
def tokens (offset : Nat) : Segment → List Token
  | stretch text =>
    [{ kind := .template, span := ⟨offset, offset + byteLength text⟩, text := String.ofList text }]
  | expression e => (Lexed.ofText e.text).tokens.dropLast.map (Token.shift offset)

def comments (offset : Nat) : Segment → List Span
  | stretch _ => []
  | expression e => (Lexed.ofText e.text).comments.map (Span.shift offset)

def allTokens (offset : Nat) : List Segment → List Token
  | [] => []
  | x :: xs => x.tokens offset ++ allTokens (offset + byteLength x.text) xs

def allComments (offset : Nat) : List Segment → List Span
  | [] => []
  | x :: xs => x.comments offset ++ allComments (offset + byteLength x.text) xs

def pieces : Segment → List Piece
  | stretch text => [⟨.template, text⟩]
  | expression e => Piece.ofText e.text

end Segment

theorem flatMap_text_segmentsFrom (opening : Char) (chunk : Chunk)
    (parts : List (Expression × Chunk)) :
    (segmentsFrom opening chunk parts).flatMap Segment.text =
      opening :: chunk.val ++
        parts.flatMap (fun x => '$' :: '{' :: x.1.text.toList ++ '}' :: x.2.val) ++ ['\x60'] := by
  induction parts generalizing opening chunk with
  | nil => simp [segmentsFrom, Segment.text]
  | cons x parts ih =>
    obtain ⟨e, next⟩ := x
    rw [segmentsFrom, List.flatMap_cons, List.flatMap_cons, ih, List.flatMap_cons]
    simp [Segment.text]

theorem toList_text (t : Template) : t.text.toList = t.segments.flatMap Segment.text := by
  rw [segments, flatMap_text_segmentsFrom, text, String.toList_ofList]

/-! ## Stretches -/

/-- What ends a stretch of a template. -/
def IsMark (mark : List Char) : Prop := mark = ['\x60'] ∨ mark = ['$', '{']

/-- A template is read over a chunk up to the mark behind it. -/
theorem IsChunk.template_append {chunk mark : List Char} (h : IsChunk chunk) (hmark : IsMark mark)
    (rest : List Char) :
    Reading.template (chunk ++ (mark ++ rest)) = ⟨chunk ++ mark, rest, true⟩ := by
  have hhead : (mark ++ rest).head? ≠ some '{' := by
    rcases hmark with rfl | rfl <;> simp
  induction h with
  | nil =>
    rcases hmark with rfl | rfl <;> simp [Reading.template_cons, Reading.complete]
  | escape c _ ih =>
    rw [List.cons_append, Reading.template_cons, if_pos rfl, List.cons_append, Reading.behindEscape,
      ih]
    rfl
  | @plain c cs hescape hquote hdollar _ ih =>
    have hnone : ¬(c = '$' ∧ (cs ++ (mark ++ rest)).head? = some '{') := by
      rintro ⟨hc, hbrace⟩
      cases cs with
      | nil => exact hhead hbrace
      | cons d ds => exact hdollar hc hbrace
    rw [List.cons_append, Reading.template_cons, if_neg hescape, if_neg hquote, if_neg hnone, ih]
    rfl

section

variable {opening : Char} {mark : List Char} (chunk : Chunk)

theorem legible_stretch (hopening : opening = '\x60' ∨ opening = '}') (hmark : IsMark mark) :
    Piece.Legible ⟨.template, opening :: chunk.val ++ mark⟩ := by
  have hread := chunk.2.template_append hmark []
  rw [List.append_nil] at hread
  have hreads := @Piece.Reads.template true true opening (chunk.val ++ mark)
    (hopening.imp_right fun h => ⟨h, rfl⟩) (by rw [hread])
  rw [hread] at hreads
  exact ⟨by simp [Piece.tokenKind?], _, _, _, _, _, hreads⟩

theorem resumesTemplate_stretch :
    Piece.resumesTemplate ⟨.template, opening :: chunk.val ++ mark⟩ = decide (opening = '}') := by
  simp [Piece.resumesTemplate]

theorem opensSubstitution_stretch (hmark : IsMark mark) :
    Piece.opensSubstitution ⟨.template, opening :: chunk.val ++ mark⟩ = decide (mark = ['$', '{']) := by
  rcases hmark with rfl | rfl
  · simp [Piece.opensSubstitution, List.isPrefixOf]
  · simp [Piece.opensSubstitution, List.isPrefixOf]

end

end Template

/-! ## Expressions -/

/-- An expression begins here that a substitution encloses. -/
structure Context.BeginsSubstitution (k : Context) : Prop where
  slashOpensRegex : k.slashOpensRegex = true
  afterHeadWord : k.afterHeadWord = false
  braceResumesTemplate : k.braceResumesTemplate = true

namespace Context

theorem BeginsSubstitution.within_eq {k : Context} (h : k.BeginsSubstitution) : k.within {} = k := by
  obtain ⟨slash, word, heads, depth, substitutions⟩ := k
  obtain ⟨rfl, rfl, -⟩ := h
  rfl

theorem beginsSubstitution_after (k : Context) {text : List Char}
    (h : Piece.opensSubstitution ⟨.template, text⟩ = true) :
    (k.after ⟨.template, text⟩).BeginsSubstitution := by
  refine ⟨?_, rfl, ?_⟩
  · simp [after, h]
  · simp [after, h, braceResumesTemplate]

end Context

namespace Template

namespace Expression

variable (e : Expression)

theorem program_eq : Lexer.program e.text = e.text.toList := by
  have hline : Lexer.interpreterLine e.text.toList = [] := by
    simp [Lexer.interpreterLine, e.no_interpreter]
  exact (Lexer.program_eq_iff (List.nil_append _).symm).mpr hline

theorem programStart_eq : Lexer.programStart e.text = 0 := by
  simp [Lexer.programStart, Lexer.interpreterLine, e.no_interpreter]

theorem flatMap_text_ofText : (Piece.ofText e.text).flatMap Piece.text = e.text.toList := by
  rw [Piece.ofText, Context.flatMap_text_pieces, program_eq]

theorem legible_of_mem_ofText {p : Piece} (hp : p ∈ Piece.ofText e.text) : p.Legible :=
  Piece.legible_of_mem_ofText e.no_error hp

/-- The last piece of an expression is no line comment. -/
theorem kind_ne_lineComment {p : Piece} (hp : (Piece.ofText e.text).getLast? = some p) :
    p.kind ≠ .lineComment := by
  intro hkind
  obtain ⟨qs, hqs⟩ := List.getLast?_eq_some_iff.mp hp
  have hcomment : p.spanAt (0 + Piece.totalLength qs) ∈ (Lexed.ofText e.text).comments := by
    rw [Lexed.comments_ofText, programStart_eq]
    exact Piece.mem_comments_iff.mpr ⟨qs, p, [], hqs, by simp [Piece.isComment, hkind], rfl⟩
  obtain ⟨c, cs, hsplit, hread, -⟩ := Context.eq_read_of_pieces_eq hqs
  have hline : (p.spanAt (0 + Piece.totalLength qs)).IsLineComment e.text.toList := by
    have hreads : Piece.Reads _ _ c cs p _ := hread ▸ Piece.reads_read ..
    rw [← program_eq, hsplit, Nat.zero_add]
    exact hreads.isLineComment hkind _
  refine e.no_open_comment _ hcomment hline ?_
  rw [← flatMap_text_ofText, hqs]
  simp [Piece.totalLength, Piece.byteLength]

theorem substitutions_afterAll : (Context.afterAll {} (Piece.ofText e.text)).substitutions = [] := by
  have hlast := (wellNested_templateMarks_iff e.no_error).mp e.templates_closed
  rw [Lexer.tokenize_eq] at hlast
  exact hlast

/-- Where a substitution has just begun, an expression is read as it is read alone, and the brace behind
it goes on with the template. -/
theorem exists_pieces_append {k : Context} (hk : k.BeginsSubstitution) (rest : List Char) :
    ∃ k' : Context, k'.braceResumesTemplate = true ∧
      k.pieces (e.text.toList ++ '}' :: rest) = Piece.ofText e.text ++ k'.pieces ('}' :: rest) := by
  have hrun : run? [] (brackets ((Piece.ofText e.text).flatMap Piece.delimiters)) = some [] := by
    rw [← Delimiter.ofTokens_ofText]
    exact wellNested_iff.mp e.brackets_balanced
  have halone : Context.AdmitsAll {} (Piece.ofText e.text) := Context.admitsAll_pieces ..
  obtain ⟨hadmits, hafter, hcounts⟩ := Context.within_run hk.braceResumesTemplate
    Context.counts_start (fun _ => e.legible_of_mem_ofText) halone hrun
  rw [hk.within_eq] at hadmits hafter
  have hdepth : (Context.afterAll {} (Piece.ofText e.text)).braceDepth = 0 := hcounts.braceDepth
  refine ⟨k.afterAll (Piece.ofText e.text), ?_, ?_⟩
  · have hresumes := hk.braceResumesTemplate
    rw [hafter]
    simpa [Context.braceResumesTemplate, Context.within, hdepth, e.substitutions_afterAll] using hresumes
  · rw [← e.flatMap_text_ofText]
    refine Context.pieces_flatMap_append (fun _ => e.legible_of_mem_ofText)
      (Context.apart_pieces {} _) hadmits ?_
    intro p hp d hd
    obtain rfl : '}' = d := Option.some.inj hd
    exact Piece.absorbs_brace (e.kind_ne_lineComment hp)

end Expression

/-! ## All segments -/

/-- The text of the segments from `opening` on begins with that character. -/
theorem exists_text_segmentsFrom (opening : Char) (chunk : Chunk)
    (parts : List (Expression × Chunk)) :
    ∃ cs, (segmentsFrom opening chunk parts).flatMap Segment.text = opening :: cs :=
  ⟨_, flatMap_text_segmentsFrom opening chunk parts⟩

section

variable {k : Context} {opening : Char}
  (hopening : opening = '\x60' ∨ opening = '}' ∧ k.braceResumesTemplate = true)

include hopening

/-- Where the opening character begins or resumes a template, a stretch is the next piece. -/
theorem pieces_stretch_append (chunk : Chunk) {mark : List Char} (hmark : IsMark mark)
    (rest : List Char) :
    k.pieces (opening :: chunk.val ++ mark ++ rest) =
      ⟨.template, opening :: chunk.val ++ mark⟩ ::
        (k.after ⟨.template, opening :: chunk.val ++ mark⟩).pieces rest := by
  refine Context.pieces_text_append (legible_stretch chunk (hopening.imp_right And.left) hmark) ?_
    fun _ _ => rfl
  rw [Context.admits_template_iff, resumesTemplate_stretch]
  intro hbrace
  rcases hopening with rfl | ⟨-, hresumes⟩
  · cases hbrace
  · exact hresumes

/-- The segments behind such a place are read one after the other. -/
theorem pieces_segmentsFrom (chunk : Chunk) (parts : List (Expression × Chunk)) :
    k.pieces ((segmentsFrom opening chunk parts).flatMap Segment.text) =
      (segmentsFrom opening chunk parts).flatMap Segment.pieces := by
  induction parts generalizing k opening chunk with
  | nil =>
    have hlast := pieces_stretch_append hopening chunk (Or.inl rfl) []
    rw [List.append_nil, Context.pieces_nil] at hlast
    simpa [segmentsFrom, Segment.text, Segment.pieces] using hlast
  | cons x parts ih =>
    obtain ⟨e, next⟩ := x
    obtain ⟨cs, hcs⟩ := exists_text_segmentsFrom '}' next parts
    have hbegins : (k.after ⟨.template, opening :: chunk.val ++ ['$', '{']⟩).BeginsSubstitution :=
      k.beginsSubstitution_after (opensSubstitution_stretch chunk (Or.inr rfl))
    -- Of the context behind the expression only this is needed: a brace resumes the template.
    obtain ⟨k', hresumes, hexpression⟩ := e.exists_pieces_append hbegins cs
    have hrest := ih (Or.inr ⟨rfl, hresumes⟩) next
    rw [hcs] at hrest
    rw [segmentsFrom, List.flatMap_cons, List.flatMap_cons, hcs, List.flatMap_cons, List.flatMap_cons,
      ← hrest, Segment.text, Segment.text, pieces_stretch_append hopening chunk (Or.inr rfl),
      hexpression]
    rfl

end

theorem program_text (t : Template) : Lexer.program t.text = t.segments.flatMap Segment.text := by
  obtain ⟨cs, hcs⟩ := exists_text_segmentsFrom '\x60' t.head t.parts
  have htext : t.text.toList = [] ++ t.segments.flatMap Segment.text := t.toList_text
  refine (Lexer.program_eq_iff htext).mpr ?_
  rw [htext, segments, hcs]
  rfl

/-- A template falls into its stretches and the pieces of its expressions. -/
theorem ofText_text (t : Template) : Piece.ofText t.text = t.segments.flatMap Segment.pieces := by
  rw [Piece.ofText, program_text]
  exact pieces_segmentsFrom (Or.inl rfl) t.head t.parts

theorem programStart_text (t : Template) : Lexer.programStart t.text = 0 := by
  have hlength := Lexer.programStart_add_byteLength t.text
  rw [program_text, ← toList_text] at hlength
  omega

/-! ## Tokens and comments -/

namespace Segment

theorem totalLength_pieces (x : Segment) : Piece.totalLength x.pieces = byteLength x.text := by
  cases x with
  | stretch cs => simp [pieces, text, Piece.byteLength]
  | expression e => rw [pieces, Piece.totalLength, e.flatMap_text_ofText, text]

theorem tokens_pieces (offset : Nat) (x : Segment) :
    Piece.tokens offset x.pieces = x.tokens offset := by
  cases x with
  | stretch text => rfl
  | expression e =>
    rw [pieces, tokens, Lexed.tokens_ofText, List.dropLast_concat, e.programStart_eq,
      ← Piece.tokens_shift, Nat.add_zero]

theorem comments_pieces (offset : Nat) (x : Segment) :
    Piece.comments offset x.pieces = x.comments offset := by
  cases x with
  | stretch text => rfl
  | expression e =>
    rw [pieces, comments, Lexed.comments_ofText, e.programStart_eq, ← Piece.comments_shift,
      Nat.add_zero]

theorem tokens_flatMap_pieces (offset : Nat) (xs : List Segment) :
    Piece.tokens offset (xs.flatMap pieces) = allTokens offset xs := by
  induction xs generalizing offset with
  | nil => rfl
  | cons x xs ih =>
    rw [List.flatMap_cons, Piece.tokens_append, tokens_pieces, totalLength_pieces, ih, allTokens]

theorem comments_flatMap_pieces (offset : Nat) (xs : List Segment) :
    Piece.comments offset (xs.flatMap pieces) = allComments offset xs := by
  induction xs generalizing offset with
  | nil => rfl
  | cons x xs ih =>
    rw [List.flatMap_cons, Piece.comments_append, comments_pieces, totalLength_pieces, ih, allComments]

end Segment

theorem tokenKind?_ne_error {t : Template} {p : Piece} (hp : p ∈ Piece.ofText t.text) :
    p.tokenKind? ≠ some .error := by
  rw [ofText_text] at hp
  obtain ⟨x, -, hp⟩ := List.mem_flatMap.mp hp
  cases x with
  | stretch text =>
    rw [List.mem_singleton.mp hp]
    simp [Piece.tokenKind?]
  | expression e => exact Piece.tokenKind?_ne_error e.no_error p hp

theorem kind_ne_error (t : Template) : ∀ u ∈ (Lexed.ofText t.text).tokens, u.kind ≠ .error := by
  intro u hu
  rw [Lexed.tokens_ofText] at hu
  rcases List.mem_append.mp hu with hu | hu
  · obtain ⟨qs, p, rs, hps, htoken⟩ := Piece.mem_tokens_iff.mp hu
    have hp : p ∈ Piece.ofText t.text := by
      rw [hps]
      simp
    have hkind := tokenKind?_ne_error hp
    rw [Piece.kind_of_token? htoken] at hkind
    exact fun herror => hkind (congrArg some herror)
  · rw [List.mem_singleton.mp hu]
    simp [Token.atEnd]

/-- Lexing a template gives a token for each stretch, and for each expression between them the tokens
that it has by itself, moved to its place; its comments are those of the expressions, and there are no
errors. -/
theorem lexed_ofText (t : Template) :
    (Lexed.ofText t.text).tokens =
        Segment.allTokens 0 t.segments ++ [Token.atEnd (byteLength t.text.toList)] ∧
      (Lexed.ofText t.text).comments = Segment.allComments 0 t.segments ∧
      ∀ u ∈ (Lexed.ofText t.text).tokens, u.kind ≠ .error := by
  refine ⟨?_, ?_, t.kind_ne_error⟩
  · rw [Lexed.tokens_ofText, programStart_text, ofText_text, Segment.tokens_flatMap_pieces]
  · rw [Lexed.comments_ofText, programStart_text, ofText_text, Segment.comments_flatMap_pieces]

/-- Inside the outer template stands an object with a comment, and inside the inner one a name. -/
theorem lexed_ofText_of_nested :
    ∃ t : Template, t.text = "`a$\x7b \x7bb: `c$\x7bd\x7d` /**/\x7d \x7de`" ∧
      (Lexed.ofText t.text).tokens.map (·.text) =
        ["`a$\x7b", "\x7b", "b", ":", "`c$\x7b", "d", "\x7d`", "\x7d", "\x7de`", ""] ∧
      (Lexed.ofText t.text).comments = [⟨17, 21⟩] ∧
      ∀ u ∈ (Lexed.ofText t.text).tokens, u.kind ≠ .error := by
  let object : Expression :=
    { text := " \x7bb: `c$\x7bd\x7d` /**/\x7d "
      no_error := by decide +kernel
      brackets_balanced := by decide +kernel
      templates_closed := by decide +kernel
      no_interpreter := by decide +kernel
      no_open_comment := by
        have hcomments : (Lexed.ofText " \x7bb: `c$\x7bd\x7d` /**/\x7d ").comments = [⟨13, 17⟩] := by
          decide +kernel
        rw [hcomments]
        rintro s hs -
        rw [List.mem_singleton.mp hs]
        decide +kernel }
  let t : Template :=
    { head := ⟨['a'], .plain (by decide) (by decide) (by decide) .nil⟩
      parts := [(object, ⟨['e'], .plain (by decide) (by decide) (by decide) .nil⟩)] }
  obtain ⟨htokens, hcomments, hkinds⟩ := lexed_ofText t
  refine ⟨t, by decide +kernel, ?_, ?_, hkinds⟩
  · rw [htokens]
    decide +kernel
  · rw [hcomments]
    decide +kernel

/-! ## A template as an expression -/

/-- The brackets of any segments close each other. -/
theorem run?_brackets_pieces (xs : List Segment) (stack : List Enclosure) :
    run? stack (brackets ((xs.flatMap Segment.pieces).flatMap Piece.delimiters)) = some stack := by
  induction xs with
  | nil => rfl
  | cons x xs ih =>
    have hfirst : run? stack (brackets (x.pieces.flatMap Piece.delimiters)) = some stack := by
      cases x with
      | stretch text =>
        have hnone : brackets (Piece.delimiters ⟨.template, text⟩) = [] := by
          rw [Piece.delimiters_template]
          split_ifs <;> rfl
        rw [Segment.pieces, List.flatMap_singleton, hnone]
        rfl
      | expression e =>
        rw [Segment.pieces, ← Delimiter.ofTokens_ofText]
        exact e.brackets_balanced.run? stack
    rw [List.flatMap_cons, List.flatMap_append, brackets_append, run?_append, hfirst]
    exact ih

/-- Each substitution of a template is closed. -/
theorem run?_templateMarks_segmentsFrom (opening : Char) (chunk : Chunk)
    (parts : List (Expression × Chunk)) (stack : List Enclosure) :
    run? (if opening = '}' then .substitution :: stack else stack)
      (templateMarks (((segmentsFrom opening chunk parts).flatMap Segment.pieces).flatMap
        Piece.delimiters)) = some stack := by
  -- A stretch closes the substitution before it and opens one if its mark does.
  have hstretch : ∀ (opening : Char) (chunk : Chunk) (mark : List Char), IsMark mark →
      run? (if opening = '}' then .substitution :: stack else stack)
        (templateMarks (Piece.delimiters ⟨.template, opening :: chunk.val ++ mark⟩)) =
        some (if mark = ['$', '{'] then .substitution :: stack else stack) := by
    intro opening chunk mark hmark
    rw [Piece.delimiters_template, resumesTemplate_stretch, opensSubstitution_stretch chunk hmark]
    by_cases hopening : opening = '}' <;> by_cases hopens : mark = ['$', '{'] <;>
      simp [hopening, hopens, templateMarks]
  induction parts generalizing opening chunk with
  | nil =>
    have hlast := hstretch opening chunk _ (Or.inl rfl)
    simpa [segmentsFrom, Segment.pieces] using hlast
  | cons x parts ih =>
    obtain ⟨e, next⟩ := x
    have hfirst := hstretch opening chunk _ (Or.inr rfl)
    have hexpression : run? (.substitution :: stack)
        (templateMarks ((Piece.ofText e.text).flatMap Piece.delimiters)) =
        some (.substitution :: stack) := by
      rw [← Delimiter.ofTokens_ofText]
      exact e.templates_closed.run? _
    have hrest := ih '}' next
    rw [if_pos rfl] at hfirst hrest
    rw [segmentsFrom, List.flatMap_cons, List.flatMap_append, templateMarks_append, run?_append,
      Segment.pieces, List.flatMap_singleton, hfirst, Option.bind_some, List.flatMap_cons,
      List.flatMap_append, templateMarks_append, run?_append, Segment.pieces, hexpression,
      Option.bind_some, hrest]

theorem getLast?_segmentsFrom (opening : Char) (chunk : Chunk) (parts : List (Expression × Chunk)) :
    ∃ text, ((segmentsFrom opening chunk parts).flatMap Segment.pieces).getLast? =
      some ⟨.template, text⟩ := by
  induction parts generalizing opening chunk with
  | nil => exact ⟨_, rfl⟩
  | cons x parts ih =>
    obtain ⟨e, next⟩ := x
    obtain ⟨text, hlast⟩ := ih '}' next
    refine ⟨text, ?_⟩
    rw [segmentsFrom, List.flatMap_cons, List.flatMap_cons, ← List.append_assoc,
      List.getLast?_append, hlast]
    rfl

/-- No comment reaches to the end of a template. -/
theorem stop_ne_of_mem_comments {t : Template} {s : Span} (hs : s ∈ (Lexed.ofText t.text).comments) :
    s.stop ≠ byteLength t.text.toList := by
  intro hstop
  rw [Lexed.comments_ofText, programStart_text] at hs
  obtain ⟨qs, p, rs, hsplit, hcomment, rfl⟩ := Piece.mem_comments_iff.mp hs
  have htext : byteLength t.text.toList = Piece.totalLength (Piece.ofText t.text) := by
    rw [Piece.totalLength, Piece.ofText, Context.flatMap_text_pieces, program_text, toList_text]
  rw [htext, hsplit, Piece.totalLength_append, Piece.totalLength_cons, Piece.spanAt_stop] at hstop
  cases rs with
  | nil =>
    obtain ⟨text, hlast⟩ := getLast?_segmentsFrom '\x60' t.head t.parts
    rw [← segments, ← ofText_text, hsplit, List.getLast?_concat] at hlast
    rw [Option.some.inj hlast] at hcomment
    cases hcomment
  | cons r rs =>
    have hr : r ∈ Piece.ofText t.text := by
      rw [hsplit]
      simp
    have hpos := Piece.byteLength_pos (Context.text_ne_nil_of_mem_pieces hr)
    rw [Piece.totalLength_cons] at hstop
    omega

/-- A template meets all that is asked of an expression. -/
def toExpression (t : Template) : Expression where
  text := t.text
  no_error := t.kind_ne_error
  brackets_balanced := by
    rw [Token.BracketsBalanced, Delimiter.ofTokens_ofText, ofText_text, wellNested_iff]
    exact run?_brackets_pieces _ []
  templates_closed := by
    rw [Delimiter.ofTokens_ofText, ofText_text, wellNested_iff]
    exact run?_templateMarks_segmentsFrom '\x60' t.head t.parts []
  no_interpreter := by
    obtain ⟨cs, hcs⟩ := exists_text_segmentsFrom '\x60' t.head t.parts
    rw [toList_text, segments, hcs]
    rfl
  no_open_comment := fun _ hs _ => stop_ne_of_mem_comments hs

end Template

end ModuleBuild
