import ModuleBuild.Proofs.Token.Contents

/-!
# Adding text

Where a piece ends is settled by its own characters and the one behind it. So when more text is added
behind a text, only the last piece can change: an unfinished literal may be finished now, a name may go
on, and a slash may turn out to begin a comment. The line that names an interpreter may grow, but then
nothing has been read behind it.

Main statements: `Context.read_append_more`, by which a piece in front of other text is read again;
`Context.dropLast_pieces_isPrefix`; and `Lexed.finished_isPrefix_append`, about tokens and comments.
-/

namespace ModuleBuild

open Text

namespace Piece

/-- An unfinished literal in front of other text is read again, whatever follows that text. -/
theorem Reads.append_more_of_error {a b : Bool} {c : Char} {cs rest : List Char} {p : Piece}
    (h : Reads a b c cs p rest) (hp : p.tokenKind? = some .error) (hrest : rest ≠ [])
    (more : List Char) : Reads a b c (cs ++ more) p (rest ++ more) := by
  cases h with
  | openComment opened => exact absurd (Reading.rest_blockComment opened) hrest
  | openTemplate hc opened => exact absurd (Reading.rest_template opened) hrest
  | openString hc opened =>
    have hagain := Reading.string_append_more opened hrest more
    have hreads := @Reads.openString a b c (cs ++ more) hc (by rw [hagain])
    rwa [hagain] at hreads
  | openRegex hslash hline hblock opened =>
    have hagain := Reading.regex_append_more opened hrest more
    have hhead : (cs ++ more).head? = cs.head? := by
      cases cs with
      | nil => exact absurd rfl hrest
      | cons d ds => rfl
    have hreads := @Reads.openRegex a b (cs ++ more) hslash (by rwa [hhead]) (by rwa [hhead])
      (by rw [hagain])
    rwa [hagain] at hreads
  | invalid hname hc => exact .invalid hname hc
  | _ => cases hp

end Piece

namespace Context

/-- A piece in front of other text is read again, whatever follows that text. -/
theorem read_append_more (k : Context) {c : Char} {cs : List Char} (hrest : (k.read c cs).2 ≠ [])
    (more : List Char) :
    k.read c (cs ++ more) = ((k.read c cs).1, (k.read c cs).2 ++ more) := by
  have hreads := k.reads_read c cs
  by_cases hinvalid : (k.read c cs).1.kind = .fault .invalidCharacter
  · have hagain := Piece.read_eq_invalid hinvalid k.slashOpensRegex k.braceResumesTemplate
    rw [Context.read, Context.read, hagain, hagain]
  by_cases herror : (k.read c cs).1.tokenKind? = some .error
  · exact (hreads.append_more_of_error herror hrest more).read_eq_of_ne_invalid hinvalid
  · have hcs : (k.read c cs).1.text.tail ++ ((k.read c cs).2 ++ more) = cs ++ more := by
      have happend := k.read_append c cs
      rw [hreads.text_eq_cons, List.cons_append] at happend
      rw [← List.append_assoc, (List.cons.inj happend).2]
    have hstops : ∀ d, ((k.read c cs).2 ++ more).head? = some d →
        (k.read c cs).1.absorbs d = false := by
      intro d hd
      rw [List.head?_append_of_ne_nil _ hrest] at hd
      exact hreads.absorbs_eq_false hd
    have hagain := hreads.append herror hreads.fits hstops
    rw [hcs] at hagain
    exact hagain.read_eq herror

/-- All pieces of a text but the last are the first pieces of the text with more behind it. -/
theorem dropLast_pieces_isPrefix (k : Context) (cs more : List Char) :
    (k.pieces cs).dropLast <+: k.pieces (cs ++ more) := by
  induction k, cs using pieces.induct with
  | case1 k => simp
  | case2 k c cs ih =>
    rw [pieces_cons]
    cases hrest : (k.read c cs).2 with
    | nil => simp
    | cons d ds =>
      have hne : (k.read c cs).2 ≠ [] := by simp [hrest]
      have hmore : (k.after (k.read c cs).1).pieces (d :: ds) ≠ [] := by simp [pieces_cons]
      rw [hrest] at ih
      rw [List.dropLast_cons_of_ne_nil hmore, List.cons_append, k.pieces_cons c (cs ++ more),
        k.read_append_more hne, hrest]
      exact List.cons_prefix_cons.mpr ⟨rfl, ih⟩

end Context

namespace Piece

theorem filter_tokens (stays : Span → Bool) (offset : Nat) (ps : List Piece) :
    (tokens offset ps).filter (fun t => stays t.span) =
      ((placed offset ps).filter fun x => stays x.2).filterMap placedToken? := by
  rw [tokens, List.filter_filterMap, List.filterMap_filter]
  apply List.filterMap_congr
  rintro ⟨p, s⟩ hx
  obtain ⟨qs, rs, -, rfl⟩ := mem_placed_iff.mp hx
  cases ht : placedToken? (p, p.spanAt (offset + totalLength qs)) with
  | none => simp
  | some t =>
    have hspan : t.span = p.spanAt (offset + totalLength qs) := span_of_token? ht
    rw [← hspan]
    rfl

theorem filter_comments (stays : Span → Bool) (offset : Nat) (ps : List Piece) :
    (comments offset ps).filter stays =
      (((placed offset ps).filter fun x => stays x.2).filter (·.1.isComment)).map (·.2) := by
  rw [comments, List.filter_map, List.filter_filter, List.filter_filter]
  simp only [Bool.and_comm, Function.comp_def]

/-- Among pieces that reach up to an offset, all but the last end before it. -/
theorem filter_placed_stop_lt {offset stop : Nat} {ps : List Piece} (hps : ∀ p ∈ ps, p.text ≠ [])
    (hstop : offset + totalLength ps = stop) :
    (placed offset ps).filter (fun x => x.2.stop < stop) = placed offset ps.dropLast := by
  induction ps generalizing offset with
  | nil => rfl
  | cons p ps ih =>
    have hrest := fun q hq => hps q (List.mem_cons_of_mem p hq)
    rw [totalLength_cons, ← Nat.add_assoc] at hstop
    cases ps with
    | nil =>
      rw [totalLength_nil, Nat.add_zero] at hstop
      simp [placed, hstop]
    | cons q ps =>
      have hq := byteLength_pos (hrest q List.mem_cons_self)
      have hlt : (p.spanAt offset).stop < stop := by
        rw [totalLength_cons] at hstop
        rw [spanAt_stop]
        omega
      rw [placed, List.filter_cons_of_pos (by exact decide_eq_true hlt), ih hrest hstop,
        List.dropLast_cons_of_ne_nil (List.cons_ne_nil q ps), placed]

end Piece

namespace Lexer

theorem interpreterLine_append_more {cs : List Char} (hlength : 2 ≤ cs.length)
    (hline : interpreterLine cs ≠ cs) (more : List Char) :
    interpreterLine (cs ++ more) = interpreterLine cs := by
  obtain ⟨c, d, cs, rfl⟩ : ∃ c d ds, cs = c :: d :: ds := by
    match cs with
    | c :: d :: ds => exact ⟨c, d, ds, rfl⟩
    | [] | [_] => simp at hlength
  unfold interpreterLine at hline ⊢
  by_cases hprefix : ['#', '!'].isPrefixOf (c :: d :: cs) = true
  · have hmore : ['#', '!'].isPrefixOf (c :: d :: cs ++ more) = true := by
      simpa [List.isPrefixOf] using hprefix
    rw [if_pos hprefix] at hline
    rw [if_pos hprefix, if_pos hmore, List.takeWhile_append, if_neg]
    intro hall
    exact hline ((List.takeWhile_prefix _).eq_of_length hall)
  · have hmore : ¬['#', '!'].isPrefixOf (c :: d :: cs ++ more) = true := by
      simpa [List.isPrefixOf] using hprefix
    rw [if_neg hprefix, if_neg hmore]

end Lexer

theorem Lexer.program_append {text : String} (hprogram : 2 ≤ (program text).length)
    (more : String) : program (text ++ more) = program text ++ more.toList ∧
      programStart (text ++ more) = programStart text := by
  have hsplit := interpreterLine_append_program text
  have hline : interpreterLine text.toList ≠ text.toList := by
    intro hline
    rw [hline, List.append_right_eq_self] at hsplit
    rw [hsplit] at hprogram
    simp at hprogram
  have hlength : 2 ≤ text.toList.length := by
    rw [← hsplit, List.length_append]
    omega
  have hagain := interpreterLine_append_more hlength hline more.toList
  have htext : (text ++ more).toList = interpreterLine text.toList ++ (program text ++ more.toList) := by
    rw [String.toList_append, ← List.append_assoc, hsplit]
  have hlineMore : interpreterLine (text ++ more).toList = interpreterLine text.toList := by
    rw [String.toList_append, hagain]
  refine ⟨(program_eq_iff htext).mpr hlineMore, ?_⟩
  rw [programStart, hlineMore, programStart]

/-- All pieces of a text but the last are the first pieces of the text with more behind it, at the same
places. -/
theorem Piece.dropLast_ofText_isPrefix (text more : String) :
    (ofText text).dropLast = [] ∨
      (ofText text).dropLast <+: ofText (text ++ more) ∧
        Lexer.programStart (text ++ more) = Lexer.programStart text := by
  by_cases hnone : (ofText text).dropLast = []
  · exact Or.inl hnone
  right
  have hpieces : 2 ≤ (ofText text).length := by
    have hpos := List.length_pos_iff.mpr hnone
    rw [List.length_dropLast] at hpos
    omega
  have hprogram : 2 ≤ (Lexer.program text).length := by
    have hle := length_le_length_flatMap fun p (hp : p ∈ ofText text) =>
      Context.text_ne_nil_of_mem_pieces hp
    rw [ofText, Context.flatMap_text_pieces] at hle
    exact hpieces.trans hle
  obtain ⟨hmore, hstart⟩ := Lexer.program_append hprogram more
  refine ⟨?_, hstart⟩
  rw [ofText, ofText, hmore]
  exact Context.dropLast_pieces_isPrefix ..

namespace Lexed

/-- What is finished before the end of a text stays as it is when more is added behind the text: the
tokens and the comments that end before the end are the first ones of the longer text. -/
theorem finished_isPrefix_append (text more : String) :
    (ofText text).tokens.filter (fun t => t.span.stop < byteLength text.toList) <+:
        (ofText (text ++ more)).tokens ∧
      (ofText text).comments.filter (fun s => s.stop < byteLength text.toList) <+:
        (ofText (text ++ more)).comments := by
  have hne : ∀ p ∈ Piece.ofText text, p.text ≠ [] := fun p hp => Context.text_ne_nil_of_mem_pieces hp
  have hplaced := Piece.filter_placed_stop_lt hne (Lexer.programStart_add_totalLength text)
  have htokens : (ofText text).tokens.filter (fun t => t.span.stop < byteLength text.toList) =
      Piece.tokens (Lexer.programStart text) (Piece.ofText text).dropLast := by
    have hend : (Token.atEnd (byteLength text.toList)).span.stop = byteLength text.toList := rfl
    rw [tokens_ofText, List.filter_append,
      Piece.filter_tokens (fun s => s.stop < byteLength text.toList), hplaced,
      List.filter_cons_of_neg (by simp [hend]), List.filter_nil, List.append_nil, Piece.tokens]
  have hcomments : (ofText text).comments.filter (fun s => s.stop < byteLength text.toList) =
      Piece.comments (Lexer.programStart text) (Piece.ofText text).dropLast := by
    rw [comments_ofText, Piece.filter_comments, hplaced, Piece.comments]
  rw [htokens, hcomments, tokens_ofText, comments_ofText]
  rcases Piece.dropLast_ofText_isPrefix text more with hnone | ⟨⟨rest, hrest⟩, hstart⟩
  · rw [hnone]
    exact ⟨List.nil_prefix, List.nil_prefix⟩
  · rw [hstart, ← hrest, Piece.tokens_append, Piece.comments_append, List.append_assoc]
    exact ⟨List.prefix_append .., List.prefix_append ..⟩

end Lexed

end ModuleBuild
