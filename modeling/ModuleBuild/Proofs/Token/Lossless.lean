import ModuleBuild.Proofs.Token.Pieces
import ModuleBuild.Proofs.Token.Shapes
import Mathlib.Data.List.Pairwise
import Mathlib.Data.List.TakeWhile

/-!
# Lexing loses nothing

The spans of the tokens and comments of a text lie one behind the other, and whatever lies between
them is blank. The text of a token is what stands at its span, and comments end where the text says.
All of this is seen on the placed pieces: they lie end to end and make up the program, and each of
them is a token, a comment or a blank.

Main statement: `lossless_ofText`.
-/

namespace ModuleBuild

namespace Text

/-- The character to which the byte `n` belongs. -/
def charAt? : List Char → Nat → Option Char
  | [], _ => none
  | c :: cs, n => if n < c.utf8Size then some c else charAt? cs (n - c.utf8Size)

/-- An offset between two characters, or at one of the ends. -/
def IsBoundary (cs : List Char) (n : Nat) : Prop :=
  ∃ before after, cs = before ++ after ∧ n = byteLength before

/-- Behind a leading part, bytes are counted anew. -/
theorem charAt?_append (before cs : List Char) (n : Nat) :
    charAt? (before ++ cs) (byteLength before + n) = charAt? cs n := by
  induction before with
  | nil => simp
  | cons c before ih =>
    have hle : ¬ c.utf8Size + byteLength before + n < c.utf8Size := by omega
    have hsub : c.utf8Size + byteLength before + n - c.utf8Size = byteLength before + n := by omega
    rw [List.cons_append, byteLength_cons, charAt?, if_neg hle, hsub, ih]

end Text

/-- The byte `n` lies in the span. -/
def Span.Covers (s : Span) (n : Nat) : Prop := s.start ≤ n ∧ n < s.stop

/-- A comment from `//` up to the first line feed behind it or up to the end of the text. -/
def Span.IsLineComment (cs : List Char) (s : Span) : Prop :=
  ∃ before body after, cs = before ++ ('/' :: '/' :: body ++ after) ∧
    s = ⟨Text.byteLength before, Text.byteLength (before ++ '/' :: '/' :: body)⟩ ∧
    '\n' ∉ body ∧ (after = [] ∨ after.head? = some '\n')

/-- A comment from `/*` up to the first `*/` behind these two characters. -/
def Span.IsBlockComment (cs : List Char) (s : Span) : Prop :=
  ∃ before body after, cs = before ++ ('/' :: '*' :: body ++ after) ∧
    s = ⟨Text.byteLength before, Text.byteLength (before ++ '/' :: '*' :: body)⟩ ∧
    (∃ inner, body = inner ++ ['*', '/']) ∧ ∀ a b, body = a ++ '*' :: '/' :: b → b = []

/-- The tokens and comments of the text `cs` whose program starts at the byte `start` account for the
whole program. -/
structure Lexed.Lossless (cs : List Char) (start : Nat) (l : Lexed) : Prop where
  /-- The end token comes last and there is no other; every other token has at least one byte. -/
  tokens_end : ∃ ts, l.tokens = ts ++ [Token.atEnd (Text.byteLength cs)] ∧
    ∀ t ∈ ts, t.kind ≠ .endOfText ∧ t.span.start < t.span.stop
  /-- Comments have at least one byte. -/
  comment_nonempty : ∀ s ∈ l.comments, s.start < s.stop
  /-- Tokens lie one behind the other. -/
  tokens_ordered : l.tokens.Pairwise fun t u => t.span.stop ≤ u.span.start
  /-- Comments lie one behind the other. -/
  comments_ordered : l.comments.Pairwise fun s u => s.stop ≤ u.start
  /-- No token and comment overlap. -/
  disjoint : ∀ t ∈ l.tokens, ∀ s ∈ l.comments, t.span.stop ≤ s.start ∨ s.stop ≤ t.span.start
  /-- All spans lie in the program and between characters. -/
  inside : ∀ s, s ∈ l.tokens.map Token.span ∨ s ∈ l.comments →
    start ≤ s.start ∧ s.stop ≤ Text.byteLength cs ∧
      Text.IsBoundary cs s.start ∧ Text.IsBoundary cs s.stop
  /-- A byte of the program that no span covers belongs to a blank. -/
  gap_blank : ∀ n, start ≤ n → n < Text.byteLength cs →
    (∀ t ∈ l.tokens, ¬ t.span.Covers n) → (∀ s ∈ l.comments, ¬ s.Covers n) →
      ∃ c, Text.charAt? cs n = some c ∧ Text.isBlank c = true
  /-- A token that is no error has the text that stands at its span. -/
  token_text : ∀ t ∈ l.tokens, t.kind ≠ .error →
    Text.slice? cs t.span.start t.span.stop = some t.text.toList
  /-- Comments begin and end with their marks. -/
  comment_text : ∀ s ∈ l.comments, s.IsLineComment cs ∨ s.IsBlockComment cs
  /-- There are at most as many tokens as characters, besides the end token. -/
  tokens_length : l.tokens.length ≤ cs.length + 1

namespace Piece

/-! ## Single pieces -/

theorem byteLength_pos {p : Piece} (h : p.text ≠ []) : 0 < p.byteLength := by
  have hlen := Text.length_le_byteLength p.text
  have hpos := List.length_pos_iff.mpr h
  rw [byteLength]
  omega

theorem span_of_token? {p : Piece} {offset : Nat} {t : Token} (h : p.token? offset = some t) :
    t.span = p.spanAt offset := by
  obtain ⟨kind, text⟩ := p
  cases kind <;> simp [token?, tokenKind?] at h <;> rw [← h]

theorem kind_of_token? {p : Piece} {offset : Nat} {t : Token} (h : p.token? offset = some t) :
    p.tokenKind? = some t.kind := by
  obtain ⟨kind, text⟩ := p
  cases kind <;> simp [token?, tokenKind?] at h <;> rw [← h] <;> rfl

theorem text_of_token? {p : Piece} {offset : Nat} {t : Token} (h : p.token? offset = some t)
    (hk : t.kind ≠ .error) : t.text.toList = p.text := by
  obtain ⟨kind, text⟩ := p
  cases kind <;> simp [token?, tokenKind?] at h <;> subst h <;> simp at hk ⊢

theorem kind_ne_endOfText_of_token? {p : Piece} {offset : Nat} {t : Token}
    (h : p.token? offset = some t) : t.kind ≠ .endOfText := by
  obtain ⟨kind, text⟩ := p
  cases kind <;> simp [token?, tokenKind?] at h <;> rw [← h] <;> simp

/-- A comment is no token. -/
theorem token?_eq_none_of_isComment {p : Piece} (h : p.isComment = true) (offset : Nat) :
    p.token? offset = none := by
  obtain ⟨kind, text⟩ := p
  cases kind <;> simp [isComment, token?, tokenKind?] at h ⊢

/-- What is neither a token nor a comment is a blank. -/
theorem kind_eq_blank {p : Piece} {offset : Nat} (ht : p.token? offset = none)
    (hc : p.isComment = false) : p.kind = .blank := by
  obtain ⟨kind, text⟩ := p
  cases kind <;> simp [isComment, token?, tokenKind?] at ht hc ⊢

/-- A blank is one blank character. -/
theorem text_of_kind_eq_blank {k : Context} {c : Char} {cs : List Char}
    (h : (k.read c cs).1.kind = .blank) : (k.read c cs).1.text = [c] ∧ Text.isBlank c = true := by
  have hr := reads_read k.slashOpensRegex k.braceResumesTemplate c cs
  rw [Context.read] at h ⊢
  generalize read k.slashOpensRegex k.braceResumesTemplate c cs = r at h hr
  obtain ⟨p, rest⟩ := r
  dsimp only at h hr ⊢
  cases hr with
  | blank hc => exact ⟨rfl, hc⟩
  | _ => simp at h

theorem Reads.isLineComment {a b : Bool} {c : Char} {cs rest : List Char} {p : Piece}
    (h : Reads a b c cs p rest) (hkind : p.kind = .lineComment) (before : List Char) :
    (p.spanAt (Text.byteLength before)).IsLineComment (before ++ c :: cs) := by
  cases h with
  | lineComment ds =>
    refine ⟨before, ds.takeWhile (· != '\n'), ds.dropWhile (· != '\n'), ?_, ?_, ?_, ?_⟩
    · rw [List.cons_append, List.cons_append, List.takeWhile_append_dropWhile]
    · simp [spanAt, byteLength]
    · intro hmem
      simpa using List.mem_takeWhile_imp hmem
    · have hhead := List.head?_dropWhile_not (· != '\n') ds
      cases hd : ds.dropWhile (· != '\n') with
      | nil => exact Or.inl rfl
      | cons d rest => exact Or.inr (by simpa [hd] using hhead)
  | _ => cases hkind

theorem Reads.isBlockComment {a b : Bool} {c : Char} {cs rest : List Char} {p : Piece}
    (h : Reads a b c cs p rest) (hkind : p.kind = .blockComment) (before : List Char) :
    (p.spanAt (Text.byteLength before)).IsBlockComment (before ++ c :: cs) := by
  cases h with
  | @blockComment ds closed =>
    obtain ⟨hend, hfirst⟩ := Reading.blockComment_first_mark closed
    refine ⟨before, (Reading.blockComment ds).taken, (Reading.blockComment ds).rest, ?_, ?_, hend,
      hfirst⟩
    · rw [List.cons_append, List.cons_append, Reading.blockComment_taken_append]
    · simp [spanAt, byteLength]
  | _ => cases hkind

/-- A comment has the form that its kind says. -/
theorem isLineComment_or_isBlockComment {k : Context} {before : List Char} {c : Char}
    {cs : List Char} (h : (k.read c cs).1.isComment = true) :
    ((k.read c cs).1.spanAt (Text.byteLength before)).IsLineComment (before ++ c :: cs) ∨
      ((k.read c cs).1.spanAt (Text.byteLength before)).IsBlockComment (before ++ c :: cs) := by
  have hreads : Reads _ _ c cs (k.read c cs).1 _ := reads_read ..
  have hkind : (k.read c cs).1.kind = .lineComment ∨ (k.read c cs).1.kind = .blockComment := by
    simpa [isComment] using h
  exact hkind.imp (fun hkind => hreads.isLineComment hkind before)
    fun hkind => hreads.isBlockComment hkind before

/-! ## Placed pieces of a text -/

/-- A placed piece of a text is read at its place. -/
theorem exists_read_of_mem_placed {text : String} {p : Piece} {s : Span}
    (h : (p, s) ∈ placed (Lexer.programStart text) (ofText text)) :
    ∃ (k : Context) (before : List Char) (c : Char) (cs : List Char),
      text.toList = before ++ c :: cs ∧ Lexer.programStart text ≤ Text.byteLength before ∧
        p = (k.read c cs).1 ∧ s = p.spanAt (Text.byteLength before) := by
  obtain ⟨qs, rs, hps, rfl⟩ := mem_placed_iff.mp h
  obtain ⟨c, cs, hprogram, hp, -⟩ := Context.eq_read_of_pieces_eq hps
  refine ⟨_, Lexer.interpreterLine text.toList ++ qs.flatMap Piece.text, c, cs, ?_, ?_, hp, ?_⟩
  · exact Lexer.toList_eq_append hprogram
  · rw [Lexer.byteLength_before]
    exact Nat.le_add_right ..
  · rw [Lexer.byteLength_before]

/-- The pieces of a text without error tokens are no errors. -/
theorem tokenKind?_ne_error {text : String}
    (h : ∀ t ∈ (Lexed.ofText text).tokens, t.kind ≠ .error) :
    ∀ p ∈ ofText text, p.tokenKind? ≠ some .error := by
  intro p hp herror
  obtain ⟨qs, rs, hsplit⟩ := List.append_of_mem hp
  obtain ⟨t, ht⟩ : ∃ t, p.token? (Lexer.programStart text + totalLength qs) = some t := by
    simp [token?, herror]
  have hkind := kind_of_token? ht
  rw [herror] at hkind
  exact h t (Lexed.mem_tokens_iff.mpr (Or.inl ⟨qs, p, rs, hsplit, ht⟩)) (Option.some.inj hkind).symm

/-- Pieces cover every byte from the first to the last. -/
theorem exists_mem_placed_covers {offset n : Nat} {ps : List Piece} (hlow : offset ≤ n)
    (hhigh : n < offset + totalLength ps) : ∃ x ∈ placed offset ps, x.2.Covers n := by
  induction ps generalizing offset with
  | nil => simp at hhigh; omega
  | cons p ps ih =>
    rw [totalLength_cons] at hhigh
    by_cases hn : n < offset + p.byteLength
    · exact ⟨(p, p.spanAt offset), List.mem_cons_self, hlow, hn⟩
    · obtain ⟨x, hx, hcov⟩ := @ih (offset + p.byteLength) (by omega) (by omega)
      exact ⟨x, List.mem_cons_of_mem _ hx, hcov⟩

theorem length_placed (offset : Nat) (ps : List Piece) : (placed offset ps).length = ps.length := by
  induction ps generalizing offset with
  | nil => rfl
  | cons p ps ih => simp [placed, ih]

/-- Pieces with at least one character each are at most as many as the characters. -/
theorem length_le_length_flatMap {ps : List Piece} (h : ∀ p ∈ ps, p.text ≠ []) :
    ps.length ≤ (ps.flatMap text).length := by
  induction ps with
  | nil => simp
  | cons p ps ih =>
    have hp := List.length_pos_iff.mpr (h p List.mem_cons_self)
    have := ih fun q hq => h q (List.mem_cons_of_mem _ hq)
    simp only [List.length_cons, List.flatMap_cons, List.length_append]
    omega

end Piece

/-! ## The main statement -/

section

variable (text : String)

/-- The tokens of a text besides the end token. -/
private theorem mem_tokens {t : Token}
    (h : t ∈ Piece.tokens (Lexer.programStart text) (Piece.ofText text)) :
    ∃ (k : Context) (before : List Char) (c : Char) (cs : List Char),
      text.toList = before ++ c :: cs ∧ Lexer.programStart text ≤ Text.byteLength before ∧
        (k.read c cs).1.token? (Text.byteLength before) = some t := by
  obtain ⟨⟨p, s⟩, hx, ht⟩ := List.mem_filterMap.mp h
  obtain ⟨k, before, c, cs, htext, hstart, rfl, rfl⟩ := Piece.exists_read_of_mem_placed hx
  exact ⟨k, before, c, cs, htext, hstart, ht⟩

private theorem mem_comments {s : Span}
    (h : s ∈ Piece.comments (Lexer.programStart text) (Piece.ofText text)) :
    ∃ (k : Context) (before : List Char) (c : Char) (cs : List Char),
      text.toList = before ++ c :: cs ∧ Lexer.programStart text ≤ Text.byteLength before ∧
        (k.read c cs).1.isComment = true ∧ s = (k.read c cs).1.spanAt (Text.byteLength before) := by
  obtain ⟨⟨p, s⟩, hx, rfl⟩ := List.mem_map.mp h
  obtain ⟨hx, hc⟩ := List.mem_filter.mp hx
  obtain ⟨k, before, c, cs, htext, hstart, rfl, rfl⟩ := Piece.exists_read_of_mem_placed hx
  exact ⟨k, before, c, cs, htext, hstart, hc, rfl⟩

/-- A piece that is read behind `before` lies in the text and between its characters. -/
private theorem inside_spanAt {text : List Char} {k : Context} {before : List Char} {c : Char}
    {cs : List Char} (htext : text = before ++ c :: cs) :
    ((k.read c cs).1.spanAt (Text.byteLength before)).stop ≤ Text.byteLength text ∧
      Text.IsBoundary text ((k.read c cs).1.spanAt (Text.byteLength before)).start ∧
      Text.IsBoundary text ((k.read c cs).1.spanAt (Text.byteLength before)).stop := by
  have hsplit : text = (before ++ (k.read c cs).1.text) ++ (k.read c cs).2 := by
    rw [htext, List.append_assoc, Context.read_append]
  refine ⟨?_, ⟨before, c :: cs, htext, rfl⟩, ⟨_, _, hsplit, ?_⟩⟩
  · rw [hsplit]
    simp [Piece.byteLength]
  · simp [Piece.byteLength]

theorem Piece.pairwise_tokens (offset : Nat) (ps : List Piece) :
    (Piece.tokens offset ps).Pairwise fun t u => t.span.stop ≤ u.span.start := by
  refine (Piece.pairwise_placed offset ps).filterMap _ ?_
  rintro ⟨p, s⟩ ⟨q, u⟩ ⟨hs, hsu⟩ t ht t' ht'
  rw [Piece.span_of_token? ht, Piece.span_of_token? ht', ← hs]
  exact hsu

/-- None of the tokens in front of the end token is one itself. -/
theorem Lexed.kind_ne_endOfText {t : Token}
    (h : t ∈ Piece.tokens (Lexer.programStart text) (Piece.ofText text)) : t.kind ≠ .endOfText := by
  obtain ⟨k, before, c, cs, -, -, htok⟩ := mem_tokens text h
  exact Piece.kind_ne_endOfText_of_token? htok

theorem Lexed.start_lt_stop {t : Token}
    (h : t ∈ Piece.tokens (Lexer.programStart text) (Piece.ofText text)) :
    t.span.start < t.span.stop := by
  obtain ⟨k, before, c, cs, -, -, htok⟩ := mem_tokens text h
  rw [Piece.span_of_token? htok]
  exact Nat.lt_add_of_pos_right (Piece.byteLength_pos (Piece.read_text_ne_nil _ _ c cs))

/-- The tokens of a text lie one behind the other. -/
theorem Lexed.pairwise_tokens :
    (Lexed.ofText text).tokens.Pairwise fun t u => t.span.stop ≤ u.span.start := by
  rw [Lexed.tokens_ofText]
  refine List.pairwise_append.mpr ⟨Piece.pairwise_tokens _ _, List.pairwise_singleton _ _, ?_⟩
  intro t ht u hu
  obtain ⟨k, before, c, cs, htext, -, htok⟩ := mem_tokens text ht
  rw [List.mem_singleton.mp hu, Piece.span_of_token? htok]
  exact (inside_spanAt htext).1

/-- A token that is no error has the text that stands at its span. -/
theorem Lexed.slice?_span {t : Token} (ht : t ∈ (Lexed.ofText text).tokens) (hk : t.kind ≠ .error) :
    Text.slice? text.toList t.span.start t.span.stop = some t.text.toList := by
  rw [Lexed.tokens_ofText] at ht
  rcases List.mem_append.mp ht with ht | ht
  · obtain ⟨k, before, c, cs, htext, -, htok⟩ := mem_tokens text ht
    rw [Piece.span_of_token? htok, Piece.text_of_token? htok hk, htext, ← k.read_append c cs]
    exact Text.slice?_append _ _ _
  · rw [List.mem_singleton.mp ht]
    simpa [Token.atEnd] using Text.slice?_append text.toList [] []

private theorem pairwise_comments (offset : Nat) (ps : List Piece) :
    (Piece.comments offset ps).Pairwise fun s u => s.stop ≤ u.start := by
  refine List.Pairwise.map _ ?_ ((Piece.pairwise_placed offset ps).filter _)
  rintro x y ⟨-, h⟩
  exact h

private theorem token_comment_apart {offset : Nat} {ps : List Piece} {t : Token} {s : Span}
    (ht : t ∈ Piece.tokens offset ps) (hs : s ∈ Piece.comments offset ps) :
    t.span.stop ≤ s.start ∨ s.stop ≤ t.span.start := by
  obtain ⟨qs, p, rs, hp, htok⟩ := Piece.mem_tokens_iff.mp ht
  obtain ⟨qs', p', rs', hp', hc, rfl⟩ := Piece.mem_comments_iff.mp hs
  rw [Piece.span_of_token? htok]
  rcases Piece.eq_or_apart (Piece.mem_placed_iff.mpr ⟨qs, rs, hp, rfl⟩)
    (Piece.mem_placed_iff.mpr ⟨qs', rs', hp', rfl⟩) with h | h
  · obtain ⟨rfl, -⟩ := Prod.mk.inj h
    rw [Piece.token?_eq_none_of_isComment hc] at htok
    exact absurd htok (by simp)
  · exact h

/-- A byte of the program that no token and no comment covers belongs to a blank. -/
private theorem blank_of_not_covered {n : Nat} (hlow : Lexer.programStart text ≤ n)
    (hhigh : n < Text.byteLength text.toList)
    (ht : ∀ t ∈ Piece.tokens (Lexer.programStart text) (Piece.ofText text), ¬ t.span.Covers n)
    (hc : ∀ s ∈ Piece.comments (Lexer.programStart text) (Piece.ofText text), ¬ s.Covers n) :
    ∃ c, Text.charAt? text.toList n = some c ∧ Text.isBlank c = true := by
  rw [← Lexer.programStart_add_totalLength text] at hhigh
  obtain ⟨⟨p, s⟩, hx, hcov⟩ := Piece.exists_mem_placed_covers hlow hhigh
  obtain ⟨k, before, c, cs, htext, -, rfl, rfl⟩ := Piece.exists_read_of_mem_placed hx
  have hnone : (k.read c cs).1.token? (Text.byteLength before) = none := by
    cases hopt : (k.read c cs).1.token? (Text.byteLength before) with
    | none => rfl
    | some t =>
      refine absurd hcov ?_
      rw [← Piece.span_of_token? hopt]
      exact ht t (List.mem_filterMap.mpr ⟨_, hx, hopt⟩)
  have hcomment : (k.read c cs).1.isComment = false := by
    cases hopt : (k.read c cs).1.isComment with
    | false => rfl
    | true => exact absurd hcov (hc _ (List.mem_map.mpr ⟨_, List.mem_filter.mpr ⟨hx, hopt⟩, rfl⟩))
  obtain ⟨hone, hblank⟩ := Piece.text_of_kind_eq_blank (Piece.kind_eq_blank hnone hcomment)
  refine ⟨c, ?_, hblank⟩
  obtain ⟨m, rfl⟩ := Nat.exists_eq_add_of_le hcov.1
  have hm : m < c.utf8Size := by
    have := hcov.2
    simp only [Piece.spanAt_start, Piece.spanAt_stop, Piece.byteLength, hone, Text.byteLength_cons,
      Text.byteLength_nil] at this
    omega
  rw [htext, Piece.spanAt_start, Text.charAt?_append, Text.charAt?, if_pos hm]

private theorem length_tokens_le :
    (Piece.tokens (Lexer.programStart text) (Piece.ofText text)).length ≤ text.toList.length := by
  calc (Piece.tokens (Lexer.programStart text) (Piece.ofText text)).length
      ≤ (Piece.placed (Lexer.programStart text) (Piece.ofText text)).length :=
        List.length_filterMap_le _ _
    _ = (Piece.ofText text).length := Piece.length_placed _ _
    _ ≤ ((Piece.ofText text).flatMap Piece.text).length :=
        Piece.length_le_length_flatMap fun _ => Context.text_ne_nil_of_mem_pieces
    _ = (Lexer.program text).length := by rw [Piece.ofText, Context.flatMap_text_pieces]
    _ ≤ text.toList.length := by
        rw [← Lexer.interpreterLine_append_program text, List.length_append]
        exact Nat.le_add_left ..

/-- The tokens and comments of a text account for the whole program: they are in order, disjoint and
on character boundaries, tokens hold their text, and only blanks lie between them. -/
theorem lossless_ofText :
    Lexed.Lossless text.toList (Lexer.programStart text) (Lexed.ofText text) where
  tokens_end := ⟨_, Lexed.tokens_ofText text, fun _ ht =>
    ⟨Lexed.kind_ne_endOfText text ht, Lexed.start_lt_stop text ht⟩⟩
  comment_nonempty := by
    intro s hs
    rw [Lexed.comments_ofText] at hs
    obtain ⟨k, before, c, cs, -, -, -, rfl⟩ := mem_comments text hs
    exact Nat.lt_add_of_pos_right (Piece.byteLength_pos (Piece.read_text_ne_nil _ _ c cs))
  tokens_ordered := Lexed.pairwise_tokens text
  comments_ordered := by
    rw [Lexed.comments_ofText]
    exact pairwise_comments _ _
  disjoint := by
    intro t ht s hs
    rw [Lexed.tokens_ofText] at ht
    rw [Lexed.comments_ofText] at hs
    rcases List.mem_append.mp ht with ht | ht
    · exact token_comment_apart ht hs
    · obtain ⟨k, before, c, cs, htext, -, -, rfl⟩ := mem_comments text hs
      rw [List.mem_singleton.mp ht]
      exact Or.inr (inside_spanAt htext).1
  inside := by
    have hstart := Lexer.programStart_add_byteLength text
    rintro s (hs | hs)
    · obtain ⟨t, ht, rfl⟩ := List.mem_map.mp hs
      rw [Lexed.tokens_ofText] at ht
      rcases List.mem_append.mp ht with ht | ht
      · obtain ⟨k, before, c, cs, htext, hb, htok⟩ := mem_tokens text ht
        rw [Piece.span_of_token? htok]
        exact ⟨hb, inside_spanAt htext⟩
      · rw [List.mem_singleton.mp ht]
        have hend : Text.IsBoundary text.toList (Text.byteLength text.toList) :=
          ⟨text.toList, [], by simp, rfl⟩
        refine ⟨?_, le_rfl, hend, hend⟩
        simp only [Token.atEnd]
        omega
    · rw [Lexed.comments_ofText] at hs
      obtain ⟨k, before, c, cs, htext, hb, -, rfl⟩ := mem_comments text hs
      exact ⟨hb, inside_spanAt htext⟩
  gap_blank := by
    intro n hlow hhigh ht hc
    rw [Lexed.tokens_ofText] at ht
    rw [Lexed.comments_ofText] at hc
    exact blank_of_not_covered text hlow hhigh (fun t h => ht t (List.mem_append_left _ h)) hc
  token_text := fun _ ht hk => Lexed.slice?_span text ht hk
  comment_text := by
    intro s hs
    rw [Lexed.comments_ofText] at hs
    obtain ⟨k, before, c, cs, htext, -, hc, rfl⟩ := mem_comments text hs
    rw [htext]
    exact Piece.isLineComment_or_isBlockComment hc
  tokens_length := by
    rw [Lexed.tokens_ofText, List.length_append, List.length_singleton]
    exact Nat.add_le_add_right (length_tokens_le text) 1

end

end ModuleBuild
