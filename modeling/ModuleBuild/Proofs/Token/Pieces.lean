import ModuleBuild.Token.Lexer
import Mathlib.Data.List.Basic
import Mathlib.Data.List.Pairwise

/-!
# The pieces of a text

A lexer keeps an offset and a list of comments beside the text that is left. Neither has a say in how
the text falls into pieces: that is decided by the context alone. `Context.pieces` is this part of
lexing by itself, and `Piece.placed` gives each piece its span afterwards. The tokens and comments
that a lexer finds are then two selections from one list of placed pieces, which is how everything
about the order and the coverage of spans is proved.

Main statements: `tokenize_eq`, by which lexing is reading pieces and placing them;
`flatMap_text_pieces`, by which nothing of the text is lost; and `eq_read_of_pieces_eq`, by which each
piece is what its context reads at its place.
-/

namespace ModuleBuild

namespace Context

/-- The pieces of a text in this context. -/
def pieces (k : Context) : List Char → List Piece
  | [] => []
  | c :: cs => (k.read c cs).1 :: pieces (k.after (k.read c cs).1) (k.read c cs).2
termination_by cs => cs.length
decreasing_by exact Nat.lt_succ_of_le (Piece.read_rest_length_le ..)

/-- The context behind several pieces. -/
def afterAll (k : Context) (ps : List Piece) : Context := ps.foldl after k

@[simp] theorem afterAll_nil (k : Context) : k.afterAll [] = k := rfl

@[simp] theorem afterAll_cons (k : Context) (p : Piece) (ps : List Piece) :
    k.afterAll (p :: ps) = (k.after p).afterAll ps := rfl

@[simp] theorem pieces_nil (k : Context) : k.pieces [] = [] := by
  rw [pieces]

theorem pieces_cons (k : Context) (c : Char) (cs : List Char) :
    k.pieces (c :: cs) = (k.read c cs).1 :: (k.after (k.read c cs).1).pieces (k.read c cs).2 := by
  rw [pieces]

/-- The piece that a context reads and what it leaves are the text. -/
theorem read_append (k : Context) (c : Char) (cs : List Char) :
    (k.read c cs).1.text ++ (k.read c cs).2 = c :: cs :=
  Piece.read_append ..

theorem read_blank (k : Context) {c : Char} (hc : Text.isBlank c = true) (cs : List Char) :
    k.read c cs = (⟨.blank, [c]⟩, cs) := by
  rw [read, Piece.read, if_pos hc]

/-- The pieces of a text make up the text. -/
theorem flatMap_text_pieces (k : Context) (cs : List Char) :
    (k.pieces cs).flatMap Piece.text = cs := by
  induction k, cs using pieces.induct with
  | case1 k => simp
  | case2 k c cs ih => rw [pieces_cons, List.flatMap_cons, ih, read_append]

/-- A piece of a text is read at its place in the context there, and the pieces behind it are those of
the text that it leaves. -/
theorem eq_read_of_pieces_eq {k : Context} {cs : List Char} {qs rs : List Piece} {p : Piece}
    (h : k.pieces cs = qs ++ p :: rs) :
    ∃ c ds, cs = qs.flatMap Piece.text ++ c :: ds ∧ p = ((k.afterAll qs).read c ds).1 ∧
      rs = ((k.afterAll qs).after p).pieces ((k.afterAll qs).read c ds).2 := by
  induction qs generalizing k cs with
  | nil =>
    cases cs with
    | nil => simp at h
    | cons c cs =>
      rw [pieces_cons, List.nil_append, List.cons.injEq] at h
      obtain ⟨rfl, rfl⟩ := h
      exact ⟨c, cs, rfl, rfl, rfl⟩
  | cons q qs ih =>
    cases cs with
    | nil => simp at h
    | cons c cs =>
      rw [pieces_cons, List.cons_append, List.cons.injEq] at h
      obtain ⟨rfl, h⟩ := h
      obtain ⟨d, ds, hcs, hp, hrs⟩ := ih h
      refine ⟨d, ds, ?_, hp, hrs⟩
      rw [List.flatMap_cons, List.append_assoc, ← hcs, read_append]

/-- Behind the first pieces of a text come those of the text that is left. -/
theorem pieces_flatMap_of_append {k : Context} {cs : List Char} {qs rs : List Piece}
    (h : k.pieces cs = qs ++ rs) : (k.afterAll qs).pieces (rs.flatMap Piece.text) = rs := by
  induction qs generalizing k cs with
  | nil =>
    rw [List.nil_append] at h
    rw [afterAll_nil, ← h, flatMap_text_pieces]
  | cons q qs ih =>
    cases cs with
    | nil => simp at h
    | cons c cs =>
      rw [pieces_cons, List.cons_append, List.cons.injEq] at h
      obtain ⟨rfl, h⟩ := h
      exact ih h

/-- Every piece of a text has at least one character. -/
theorem text_ne_nil_of_mem_pieces {k : Context} {cs : List Char} {p : Piece}
    (h : p ∈ k.pieces cs) : p.text ≠ [] := by
  obtain ⟨qs, rs, h⟩ := List.append_of_mem h
  obtain ⟨c, ds, -, rfl, -⟩ := eq_read_of_pieces_eq h
  exact Piece.read_text_ne_nil _ _ c ds

end Context

/-- The span `n` bytes further on. -/
def Span.shift (n : Nat) (s : Span) : Span := ⟨n + s.start, n + s.stop⟩

/-- The token `n` bytes further on. -/
def Token.shift (n : Nat) (t : Token) : Token := { t with span := t.span.shift n }

namespace Piece

/-! ## Placed pieces -/

/-- Pieces with their spans, the first of which begins at `offset`. -/
def placed (offset : Nat) : List Piece → List (Piece × Span)
  | [] => []
  | p :: ps => (p, p.spanAt offset) :: placed (offset + p.byteLength) ps

/-- The token that a placed piece is. -/
def placedToken? (x : Piece × Span) : Option Token := x.1.token? x.2.start

/-- The tokens among pieces that begin at `offset`. -/
def tokens (offset : Nat) (ps : List Piece) : List Token :=
  (placed offset ps).filterMap placedToken?

/-- The spans of the comments among pieces that begin at `offset`. -/
def comments (offset : Nat) (ps : List Piece) : List Span :=
  ((placed offset ps).filter (·.1.isComment)).map (·.2)

/-- The number of bytes of several pieces. -/
def totalLength (ps : List Piece) : Nat := Text.byteLength (ps.flatMap text)

@[simp] theorem totalLength_nil : totalLength [] = 0 := rfl

@[simp] theorem totalLength_cons (p : Piece) (ps : List Piece) :
    totalLength (p :: ps) = p.byteLength + totalLength ps := by
  simp [totalLength, byteLength]

theorem totalLength_append (ps qs : List Piece) :
    totalLength (ps ++ qs) = totalLength ps + totalLength qs := by
  simp [totalLength]

@[simp] theorem spanAt_start (p : Piece) (offset : Nat) : (p.spanAt offset).start = offset := rfl

@[simp] theorem spanAt_stop (p : Piece) (offset : Nat) :
    (p.spanAt offset).stop = offset + p.byteLength := rfl

@[simp] theorem tokens_nil (offset : Nat) : tokens offset [] = [] := rfl

theorem tokens_cons (offset : Nat) (p : Piece) (ps : List Piece) :
    tokens offset (p :: ps) = (p.token? offset).toList ++ tokens (offset + p.byteLength) ps := by
  cases h : p.token? offset <;> simp [tokens, placed, placedToken?, h]

@[simp] theorem comments_nil (offset : Nat) : comments offset [] = [] := rfl

theorem comments_cons (offset : Nat) (p : Piece) (ps : List Piece) :
    comments offset (p :: ps) =
      (if p.isComment then [p.spanAt offset] else []) ++ comments (offset + p.byteLength) ps := by
  cases h : p.isComment <;> simp [comments, placed, h]

theorem tokens_append (offset : Nat) (ps qs : List Piece) :
    tokens offset (ps ++ qs) = tokens offset ps ++ tokens (offset + totalLength ps) qs := by
  induction ps generalizing offset with
  | nil => simp
  | cons p ps ih =>
    rw [List.cons_append, tokens_cons, tokens_cons, ih, totalLength_cons, List.append_assoc,
      Nat.add_assoc]

theorem comments_append (offset : Nat) (ps qs : List Piece) :
    comments offset (ps ++ qs) = comments offset ps ++ comments (offset + totalLength ps) qs := by
  induction ps generalizing offset with
  | nil => simp
  | cons p ps ih =>
    rw [List.cons_append, comments_cons, comments_cons, ih, totalLength_cons, List.append_assoc,
      Nat.add_assoc]

theorem spanAt_shift (p : Piece) (n offset : Nat) :
    p.spanAt (n + offset) = (p.spanAt offset).shift n := by
  unfold spanAt Span.shift
  rw [Nat.add_assoc]

theorem token?_shift (p : Piece) (n offset : Nat) :
    p.token? (n + offset) = (p.token? offset).map (Token.shift n) := by
  unfold token?
  rw [Option.map_map, spanAt_shift]
  obtain ⟨kind, text⟩ := p
  cases kind <;> rfl

/-- Pieces that begin further on have their tokens further on. -/
theorem tokens_shift (n offset : Nat) (ps : List Piece) :
    tokens (n + offset) ps = (tokens offset ps).map (Token.shift n) := by
  induction ps generalizing offset with
  | nil => rfl
  | cons p ps ih =>
    rw [tokens_cons, tokens_cons, List.map_append, Nat.add_assoc, ih, token?_shift,
      Option.toList_map]

theorem comments_shift (n offset : Nat) (ps : List Piece) :
    comments (n + offset) ps = (comments offset ps).map (Span.shift n) := by
  induction ps generalizing offset with
  | nil => rfl
  | cons p ps ih =>
    rw [comments_cons, comments_cons, List.map_append, Nat.add_assoc, ih, spanAt_shift]
    split_ifs <;> rfl

/-- A placed piece begins behind the pieces before it. -/
theorem mem_placed_iff {offset : Nat} {ps : List Piece} {p : Piece} {s : Span} :
    (p, s) ∈ placed offset ps ↔
      ∃ qs rs, ps = qs ++ p :: rs ∧ s = p.spanAt (offset + totalLength qs) := by
  induction ps generalizing offset with
  | nil => simp [placed]
  | cons q ps ih =>
    rw [placed, List.mem_cons, ih]
    constructor
    · rintro (h | ⟨qs, rs, rfl, rfl⟩)
      · obtain ⟨rfl, rfl⟩ := Prod.mk.inj h
        exact ⟨[], ps, rfl, rfl⟩
      · exact ⟨q :: qs, rs, rfl, by rw [totalLength_cons, Nat.add_assoc]⟩
    · rintro ⟨qs, rs, h, rfl⟩
      cases qs with
      | nil =>
        obtain ⟨rfl, rfl⟩ := List.cons.inj h
        exact Or.inl rfl
      | cons r qs =>
        obtain ⟨rfl, rfl⟩ := List.cons.inj h
        exact Or.inr ⟨qs, rs, rfl, by rw [totalLength_cons, Nat.add_assoc]⟩

/-- Pieces are placed one behind the other. -/
theorem pairwise_placed (offset : Nat) (ps : List Piece) :
    (placed offset ps).Pairwise fun x y =>
      x.2 = x.1.spanAt x.2.start ∧ x.2.stop ≤ y.2.start := by
  induction ps generalizing offset with
  | nil => exact List.Pairwise.nil
  | cons p ps ih =>
    refine List.Pairwise.cons ?_ (ih _)
    rintro ⟨q, s⟩ h
    obtain ⟨qs, rs, -, rfl⟩ := mem_placed_iff.mp h
    exact ⟨rfl, Nat.le_add_right ..⟩

/-- Two placed pieces are the same or lie apart. -/
theorem eq_or_apart {offset : Nat} {ps : List Piece} {x y : Piece × Span}
    (hx : x ∈ placed offset ps) (hy : y ∈ placed offset ps) :
    x = y ∨ x.2.stop ≤ y.2.start ∨ y.2.stop ≤ x.2.start := by
  let Apart (x y : Piece × Span) : Prop := x.2.stop ≤ y.2.start ∨ y.2.stop ≤ x.2.start
  have hsymm : Std.Symm Apart := ⟨fun _ _ h => h.symm⟩
  have hapart : (placed offset ps).Pairwise Apart :=
    (pairwise_placed offset ps).imp fun h => Or.inl h.2
  by_cases hxy : x = y
  · exact Or.inl hxy
  · exact Or.inr (hapart.forall hx hy hxy)

theorem mem_tokens_iff {offset : Nat} {ps : List Piece} {t : Token} :
    t ∈ tokens offset ps ↔
      ∃ qs p rs, ps = qs ++ p :: rs ∧ p.token? (offset + totalLength qs) = some t := by
  constructor
  · intro h
    obtain ⟨⟨p, s⟩, hx, ht⟩ := List.mem_filterMap.mp h
    obtain ⟨qs, rs, rfl, rfl⟩ := mem_placed_iff.mp hx
    exact ⟨qs, p, rs, rfl, ht⟩
  · rintro ⟨qs, p, rs, rfl, ht⟩
    exact List.mem_filterMap.mpr ⟨(p, _), mem_placed_iff.mpr ⟨qs, rs, rfl, rfl⟩, ht⟩

theorem mem_comments_iff {offset : Nat} {ps : List Piece} {s : Span} :
    s ∈ comments offset ps ↔
      ∃ qs p rs, ps = qs ++ p :: rs ∧ p.isComment = true ∧ s = p.spanAt (offset + totalLength qs) := by
  constructor
  · intro h
    obtain ⟨⟨p, s⟩, hx, rfl⟩ := List.mem_map.mp h
    obtain ⟨hx, hc⟩ := List.mem_filter.mp hx
    obtain ⟨qs, rs, rfl, rfl⟩ := mem_placed_iff.mp hx
    exact ⟨qs, p, rs, rfl, hc, rfl⟩
  · rintro ⟨qs, p, rs, rfl, hc, rfl⟩
    exact List.mem_map.mpr
      ⟨(p, _), List.mem_filter.mpr ⟨mem_placed_iff.mpr ⟨qs, rs, rfl, rfl⟩, hc⟩, rfl⟩

end Piece

namespace Lexer

/-! ## Lexing as reading pieces -/

theorem step_eq_none {l : Lexer} (h : l.rest = []) : l.step = none := by
  simp [step, h]

theorem step_eq_some {l : Lexer} {c : Char} {cs : List Char} (h : l.rest = c :: cs) :
    l.step = some ((l.context.read c cs).1,
      { rest := (l.context.read c cs).2
        offset := l.offset + (l.context.read c cs).1.byteLength
        context := l.context.after (l.context.read c cs).1
        comments := if (l.context.read c cs).1.isComment
          then l.comments ++ [(l.context.read c cs).1.spanAt l.offset] else l.comments }) := by
  simp [step, h]

/-- Lexing takes the pieces of the text one after the other and counts bytes on the way. -/
theorem tokenize_eq (l : Lexer) :
    l.tokenize =
      (Piece.tokens l.offset (l.context.pieces l.rest) ++
          [Token.atEnd (l.offset + Text.byteLength l.rest)],
        { rest := []
          offset := l.offset + Text.byteLength l.rest
          context := l.context.afterAll (l.context.pieces l.rest)
          comments := l.comments ++ Piece.comments l.offset (l.context.pieces l.rest) }) := by
  induction l using tokenize.induct with
  | case1 l h =>
    have hr : l.rest = [] := by
      cases hr : l.rest with
      | nil => rfl
      | cons c cs => rw [step_eq_some hr] at h; simp at h
    rw [tokenize, h]
    obtain ⟨rest, offset, context, comments⟩ := l
    subst hr
    simp
  | case2 l p l' h tokens last _ ih =>
    obtain ⟨c, cs, hr⟩ : ∃ c cs, l.rest = c :: cs := by
      cases hr : l.rest with
      | nil => rw [step_eq_none hr] at h; simp at h
      | cons c cs => exact ⟨c, cs, rfl⟩
    rw [tokenize, h]
    simp only [ih]
    rw [step_eq_some hr] at h
    simp only [Option.some.injEq, Prod.mk.injEq] at h
    obtain ⟨rfl, rfl⟩ := h
    have hlen : l.offset + (l.context.read c cs).1.byteLength +
        Text.byteLength (l.context.read c cs).2 = l.offset + Text.byteLength (c :: cs) := by
      rw [← l.context.read_append c cs, Text.byteLength_append, Piece.byteLength, Nat.add_assoc]
    rw [hr, Context.pieces_cons, Piece.tokens_cons, Piece.comments_cons, hlen]
    cases hc : (l.context.read c cs).1.isComment <;> simp

end Lexer

/-! ## The pieces of a whole text -/

/-- The characters of a text that lexing reads. -/
def Lexer.program (text : String) : List Char :=
  text.toList.drop (Lexer.interpreterLine text.toList).length

/-- The offset at which lexing a text starts. -/
def Lexer.programStart (text : String) : Nat := Text.byteLength (Lexer.interpreterLine text.toList)

/-- The pieces of a text, without the line that names its interpreter. -/
def Piece.ofText (text : String) : List Piece := Context.pieces {} (Lexer.program text)

/-- The line that names the interpreter and the program are the text. -/
theorem Lexer.interpreterLine_append_program (text : String) :
    Lexer.interpreterLine text.toList ++ Lexer.program text = text.toList := by
  have hp : Lexer.interpreterLine text.toList <+: text.toList := by
    unfold Lexer.interpreterLine
    split
    · exact List.takeWhile_prefix _
    · exact List.nil_prefix
  exact List.prefix_iff_eq_append.mp hp

/-- The program and what stands before it have the bytes of the text. -/
theorem Lexer.programStart_add_byteLength (text : String) :
    Lexer.programStart text + Text.byteLength (Lexer.program text) =
      Text.byteLength text.toList := by
  rw [Lexer.programStart, ← Text.byteLength_append, Lexer.interpreterLine_append_program]

theorem Lexer.programStart_add_totalLength (text : String) :
    Lexer.programStart text + Piece.totalLength (Piece.ofText text) =
      Text.byteLength text.toList := by
  rw [← Lexer.programStart_add_byteLength, Piece.totalLength, Piece.ofText,
    Context.flatMap_text_pieces]

/-- What stands in front of the rest of a program. -/
theorem Lexer.toList_eq_append {text : String} {qs : List Piece} {rest : List Char}
    (h : Lexer.program text = qs.flatMap Piece.text ++ rest) :
    text.toList = (Lexer.interpreterLine text.toList ++ qs.flatMap Piece.text) ++ rest := by
  rw [List.append_assoc, ← h, Lexer.interpreterLine_append_program]

theorem Lexer.byteLength_before (text : String) (qs : List Piece) :
    Text.byteLength (Lexer.interpreterLine text.toList ++ qs.flatMap Piece.text) =
      Lexer.programStart text + Piece.totalLength qs :=
  Text.byteLength_append ..

theorem Piece.program_eq_append {text : String} {qs rs : List Piece}
    (h : Piece.ofText text = qs ++ rs) :
    Lexer.program text = qs.flatMap Piece.text ++ rs.flatMap Piece.text := by
  rw [← List.flatMap_append, ← h, Piece.ofText, Context.flatMap_text_pieces]

theorem Lexed.tokens_ofText (text : String) :
    (Lexed.ofText text).tokens =
      Piece.tokens (Lexer.programStart text) (Piece.ofText text) ++
        [Token.atEnd (Text.byteLength text.toList)] := by
  rw [← Lexer.programStart_add_byteLength text]
  simp only [Lexed.ofText, Lexer.tokenize_eq]
  rfl

/-- The tokens of a text are those of its pieces and the end token. -/
theorem Lexed.mem_tokens_iff {text : String} {t : Token} :
    t ∈ (Lexed.ofText text).tokens ↔
      (∃ qs p rs, Piece.ofText text = qs ++ p :: rs ∧
        p.token? (Lexer.programStart text + Piece.totalLength qs) = some t) ∨
      t = Token.atEnd (Text.byteLength text.toList) := by
  rw [Lexed.tokens_ofText, List.mem_append, Piece.mem_tokens_iff, List.mem_singleton]

theorem Lexed.comments_ofText (text : String) :
    (Lexed.ofText text).comments =
      Piece.comments (Lexer.programStart text) (Piece.ofText text) := by
  simp only [Lexed.ofText, Lexer.tokenize_eq]
  rfl

end ModuleBuild
