import ModuleBuild.Proofs.Outline.Extents
import ModuleBuild.Proofs.Outline.Grammar
import ModuleBuild.Proofs.Token.Lossless
import ModuleBuild.Source.File

/-!
# Places in a text

The spans of tokens and comments lie in the text and end between characters, because pieces do. Two
such places split the text into three parts, in the order of their offsets.

Main statements: `Piece.fits_of_mem_placed`, and from it `Lexed.fits_of_mem_tokens` and
`Lexed.fits_of_mem_comments`; `IsBoundary.exists_append`, by which the text can be split behind any
place before a boundary.
-/

namespace ModuleBuild

/-- The span lies in the text and ends between characters on both sides. -/
structure Span.Fits (cs : List Char) (s : Span) : Prop where
  start_le_stop : s.start ≤ s.stop
  start : Text.IsBoundary cs s.start
  stop : Text.IsBoundary cs s.stop

namespace Text

/-! ## Boundaries -/

/-- Of two ways to split a text, the later one splits the rest of the earlier one. -/
theorem exists_append_of_le {a b c d : List Char} (h : a ++ b = c ++ d)
    (hle : byteLength a ≤ byteLength c) : ∃ x, c = a ++ x ∧ b = x ++ d := by
  rcases List.append_eq_append_iff.mp h with ⟨x, hc, hb⟩ | ⟨x, ha, hd⟩
  · exact ⟨x, hc, hb⟩
  · have hlen : byteLength a = byteLength c + byteLength x := by rw [ha, byteLength_append]
    have hx : x = [] := by
      have hpos := length_le_byteLength x
      exact List.length_eq_zero_iff.mp (by omega)
    subst hx
    exact ⟨[], by simpa using ha.symm, by simpa using hd.symm⟩

/-- A text is split in one way only in front of the character at a given place. -/
theorem split_unique {before before' cs cs' : List Char} {c c' : Char}
    (h : before ++ c :: cs = before' ++ c' :: cs') (hbytes : byteLength before = byteLength before') :
    before = before' ∧ c = c' ∧ cs = cs' := by
  obtain ⟨x, rfl, hrest⟩ := exists_append_of_le h hbytes.le
  rw [byteLength_append] at hbytes
  have hlength := length_le_byteLength x
  obtain rfl : x = [] := List.length_eq_zero_iff.mp (by omega)
  obtain ⟨rfl, rfl⟩ := List.cons.inj hrest
  exact ⟨(List.append_nil _).symm, rfl, rfl⟩

theorem IsBoundary.exists_append {before after : List Char} {n : Nat}
    (h : IsBoundary (before ++ after) n) (hle : byteLength before ≤ n) :
    ∃ x rest, after = x ++ rest ∧ n = byteLength (before ++ x) := by
  obtain ⟨a, b, hab, rfl⟩ := h
  obtain ⟨x, rfl, rfl⟩ := exists_append_of_le hab hle
  exact ⟨x, b, rfl, rfl⟩

/-- No boundary lies inside a character. -/
theorem IsBoundary.le_or_ge {before after : List Char} {c : Char} {n : Nat}
    (h : IsBoundary (before ++ c :: after) n) :
    n ≤ byteLength before ∨ byteLength before + c.utf8Size ≤ n := by
  by_cases hle : n ≤ byteLength before
  · exact Or.inl hle
  · obtain ⟨x, rest, hx, rfl⟩ := h.exists_append (by omega)
    cases x with
    | nil => simp at hle
    | cons d x =>
      obtain ⟨rfl, -⟩ := List.cons.inj hx
      right
      simp only [byteLength_append, byteLength_cons]
      omega

end Text

/-! ## Cuts between pieces -/

namespace Piece

/-- An offset between two pieces, or at one of the ends, when the pieces begin at `offset`. -/
def IsCut (offset : Nat) (ps : List Piece) (n : Nat) : Prop :=
  ∃ qs rs, ps = qs ++ rs ∧ n = offset + totalLength qs

theorem isCut_of_mem_placed {offset : Nat} {ps : List Piece} {p : Piece} {s : Span}
    (h : (p, s) ∈ placed offset ps) : IsCut offset ps s.start ∧ IsCut offset ps s.stop := by
  obtain ⟨qs, rs, rfl, rfl⟩ := mem_placed_iff.mp h
  refine ⟨⟨qs, p :: rs, rfl, rfl⟩, ⟨qs ++ [p], rs, by simp, ?_⟩⟩
  simp [totalLength_append, Nat.add_assoc]

theorem IsCut.offset_le {offset n : Nat} {ps : List Piece} (h : IsCut offset ps n) : offset ≤ n := by
  obtain ⟨qs, rs, -, rfl⟩ := h
  exact Nat.le_add_right ..

/-- No cut lies inside a piece. -/
theorem IsCut.le_or_ge {offset n : Nat} {ps : List Piece} {p : Piece} {s : Span}
    (h : IsCut offset ps n) (hp : (p, s) ∈ placed offset ps) : n ≤ s.start ∨ s.stop ≤ n := by
  obtain ⟨qs, rs, hps, rfl⟩ := h
  obtain ⟨qs', rs', hps', rfl⟩ := mem_placed_iff.mp hp
  rw [hps] at hps'
  simp only [spanAt_start, spanAt_stop]
  rcases List.append_eq_append_iff.mp hps' with ⟨between, rfl, -⟩ | ⟨between, rfl, hbetween⟩
  · rw [totalLength_append]
    omega
  · cases between with
    | nil => simp
    | cons q between =>
      obtain ⟨rfl, -⟩ := List.cons.inj hbetween
      rw [totalLength_append, totalLength_cons]
      omega

end Piece

/-! ## Pieces, tokens and comments -/

theorem Piece.fits_of_mem_placed {text : String} {p : Piece} {s : Span}
    (h : (p, s) ∈ placed (Lexer.programStart text) (ofText text)) : s.Fits text.toList := by
  obtain ⟨k, before, c, cs, htext, -, rfl, rfl⟩ := exists_read_of_mem_placed h
  have hsplit : text.toList = (before ++ (k.read c cs).1.text) ++ (k.read c cs).2 := by
    rw [htext, List.append_assoc, Context.read_append]
  exact ⟨Nat.le_add_right .., ⟨before, c :: cs, htext, rfl⟩,
    ⟨_, _, hsplit, by simp [Piece.byteLength]⟩⟩

theorem Lexed.fits_of_mem_tokens {text : String} {t : Token} (h : t ∈ (Lexed.ofText text).tokens) :
    t.span.Fits text.toList := by
  rw [tokens_ofText] at h
  rcases List.mem_append.mp h with h | h
  · obtain ⟨⟨p, s⟩, hx, ht⟩ := List.mem_filterMap.mp h
    have hspan : s = p.spanAt s.start := by
      obtain ⟨qs, rs, -, rfl⟩ := Piece.mem_placed_iff.mp hx
      rfl
    rw [Piece.span_of_token? ht, ← hspan]
    exact Piece.fits_of_mem_placed hx
  · have hend : Text.IsBoundary text.toList (Text.byteLength text.toList) :=
      ⟨text.toList, [], by simp, rfl⟩
    rw [List.mem_singleton.mp h]
    exact ⟨le_rfl, hend, hend⟩

theorem Lexed.fits_of_mem_comments {text : String} {s : Span}
    (h : s ∈ (Lexed.ofText text).comments) : s.Fits text.toList := by
  rw [comments_ofText] at h
  obtain ⟨⟨p, s⟩, hx, rfl⟩ := List.mem_map.mp h
  exact Piece.fits_of_mem_placed (List.mem_filter.mp hx).1

/-- A token of the program is a piece. -/
theorem Lexed.exists_placed_of_mem_significant {text : String} {t : Token}
    (h : t ∈ Outline.significant (Lexed.ofText text).tokens) :
    ∃ p, (p, t.span) ∈ Piece.placed (Lexer.programStart text) (Piece.ofText text) := by
  obtain ⟨h, hsignificant⟩ := List.mem_filter.mp h
  rw [tokens_ofText, List.mem_append, List.mem_singleton] at h
  rcases h with h | rfl
  · obtain ⟨qs, p, rs, hps, ht⟩ := Piece.mem_tokens_iff.mp h
    rw [Piece.span_of_token? ht]
    exact ⟨p, Piece.mem_placed_iff.mpr ⟨qs, rs, hps, rfl⟩⟩
  · simp [Token.atEnd, Token.isSignificant] at hsignificant

theorem Lexed.start_lt_stop_of_mem_significant {text : String} {t : Token}
    (h : t ∈ Outline.significant (Lexed.ofText text).tokens) : t.span.start < t.span.stop := by
  obtain ⟨h, hsignificant⟩ := List.mem_filter.mp h
  rw [tokens_ofText, List.mem_append, List.mem_singleton] at h
  rcases h with h | rfl
  · exact start_lt_stop text h
  · simp [Token.atEnd, Token.isSignificant] at hsignificant

theorem Lexed.increasing_significant (text : String) :
    Token.Increasing (Outline.significant (Lexed.ofText text).tokens) :=
  ⟨fun _ ht => (start_lt_stop_of_mem_significant ht).le, (pairwise_tokens text).filter _⟩

/-- The tokens of a text stand at different places. -/
theorem Lexed.nodup_span_significant (text : String) :
    ((Outline.significant (Lexed.ofText text).tokens).map Token.span).Nodup := by
  rw [List.Nodup, List.pairwise_map]
  refine (increasing_significant text).apart.imp_of_mem fun {t u} ht _ hbefore hsame => ?_
  have hpos := start_lt_stop_of_mem_significant ht
  rw [hsame] at hbefore hpos
  omega

/-- No token of a text stands at its end. -/
theorem Lexed.endSpan_not_mem (text : String) :
    Outline.endSpan (Lexed.ofText text).tokens ∉
      (Outline.significant (Lexed.ofText text).tokens).map Token.span := by
  intro hmem
  obtain ⟨t, ht, hspan⟩ := List.mem_map.mp hmem
  have hpos := start_lt_stop_of_mem_significant ht
  rw [hspan, Outline.endSpan, tokens_ofText, List.getLast?_concat] at hpos
  exact absurd hpos (Nat.lt_irrefl _)

/-- Where nothing is wrong with the tokens, the problems are those of the delimiters. -/
theorem Lexed.problems_eq_ofDelimiters {text : String}
    (herror : ∀ t ∈ (Lexed.ofText text).tokens, t.kind ≠ .error) :
    (Outline.ofTokens (Lexed.ofText text).tokens).problems =
      Problem.ofDelimiters (Outline.endSpan (Lexed.ofText text).tokens) []
        (Outline.significant (Lexed.ofText text).tokens) := by
  have hnone : (Lexed.ofText text).tokens.filterMap Problem.ofError? = [] := by
    rw [List.filterMap_eq_nil_iff]
    intro t ht
    exact if_neg (herror t ht)
  have hend : ∀ t ∈ Outline.significant (Lexed.ofText text).tokens,
      t.span.start ≤ (Outline.endSpan (Lexed.ofText text).tokens).start := by
    intro t ht
    have hpos := Lexed.start_lt_stop_of_mem_significant ht
    have hpairwise := Lexed.pairwise_tokens text
    obtain ⟨hmem, hsignificant⟩ := List.mem_filter.mp ht
    rw [tokens_ofText] at hpairwise hmem
    rw [Outline.endSpan, tokens_ofText, List.getLast?_concat]
    rcases List.mem_append.mp hmem with hmem | hmem
    · have hle := (List.pairwise_append.mp hpairwise).2.2 t hmem _ (List.mem_singleton_self _)
      exact hpos.le.trans hle
    · rw [List.mem_singleton.mp hmem] at hsignificant
      cases hsignificant
  have hincreasing := Lexed.increasing_significant text
  have hordered : (Outline.significant (Lexed.ofText text).tokens).Pairwise
      fun t u => t.span.start ≤ u.span.start :=
    hincreasing.apart.imp_of_mem fun ht _ h => (hincreasing.start_le_stop _ ht).trans h
  unfold Outline.ofTokens Outline.problemsOf
  rw [hnone, List.nil_append]
  apply List.mergeSort_of_pairwise
  simpa using Problem.pairwise_ofDelimiters hordered hend
/-- A span that reaches from token to token lies in the text and between characters. -/
theorem Span.Reaches.fits {text : String} {ts : List Token}
    (hts : ∀ t ∈ ts, t ∈ (Lexed.ofText text).tokens) {s : Span} (h : s.Reaches ts) :
    s.Fits text.toList := by
  obtain ⟨⟨t, ht, hstart⟩, ⟨u, hu, hstop⟩, ⟨v, hv, hbefore, hbehind⟩⟩ := h
  have hle := (Lexed.fits_of_mem_tokens (hts v hv)).start_le_stop
  refine ⟨by omega, ?_, ?_⟩
  · rw [hstart]
    exact (Lexed.fits_of_mem_tokens (hts t ht)).start
  · rw [hstop]
    exact (Lexed.fits_of_mem_tokens (hts u hu)).stop

/-- The statements of a text begin and end between pieces. -/
theorem SourceFile.isCut_of_mem_statements {name text : String} {s : Statement}
    (h : s ∈ (SourceFile.ofText name text).statements) :
    Piece.IsCut (Lexer.programStart text) (Piece.ofText text) s.span.start ∧
      Piece.IsCut (Lexer.programStart text) (Piece.ofText text) s.span.stop := by
  obtain ⟨⟨t, ht, hstart⟩, ⟨u, hu, hstop⟩, -⟩ := Statement.reaches_of_mem_ofTokens h
  obtain ⟨p, hp⟩ := Lexed.exists_placed_of_mem_significant ht
  obtain ⟨q, hq⟩ := Lexed.exists_placed_of_mem_significant hu
  rw [hstart, hstop]
  exact ⟨(Piece.isCut_of_mem_placed hp).1, (Piece.isCut_of_mem_placed hq).2⟩

theorem SourceFile.fits_of_mem_statements {name text : String} {s : Statement}
    (h : s ∈ (SourceFile.ofText name text).statements) : s.span.Fits text.toList :=
  (Statement.reaches_of_mem_ofTokens h).fits fun _ ht => (List.mem_filter.mp ht).1

end ModuleBuild
