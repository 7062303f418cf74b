import ModuleBuild.Proofs.Outline.Layout
import ModuleBuild.Proofs.Text.Cutting

/-!
# Blanking errors

An error token leaves the context as it was, and the pieces around it end where they end for reasons of
their own. So spaces can stand in its place, one for each byte: every other piece is read again, at the
same place. An open template is the one error that changes the context, but it reaches up to the end.

Main statements: `Context.pieces_blankErrors`, by which the pieces of a text without its errors are read
again; and `Lexed.tokens_blankErrors`, about tokens, comments and statements.
-/

namespace ModuleBuild

namespace Text

/-! ## Spaces at covered offsets -/

/-- The characters of a text that begins at `offset`, with spaces for the bytes of those at covered
offsets. -/
def blanked (covered : Nat → Bool) (offset : Nat) : List Char → List Char
  | [] => []
  | c :: cs =>
    (if covered offset then List.replicate c.utf8Size ' ' else [c]) ++
      blanked covered (offset + c.utf8Size) cs

variable {covered : Nat → Bool} {offset : Nat}

theorem blanked_append (cs ds : List Char) :
    blanked covered offset (cs ++ ds) =
      blanked covered offset cs ++ blanked covered (offset + byteLength cs) ds := by
  induction cs generalizing offset with
  | nil => rfl
  | cons c cs ih => simp [blanked, ih, Nat.add_assoc]

theorem blanked_eq_replicate {cs : List Char}
    (h : ∀ n, offset ≤ n → n < offset + byteLength cs → covered n = true) :
    blanked covered offset cs = List.replicate (byteLength cs) ' ' := by
  induction cs generalizing offset with
  | nil => rfl
  | cons c cs ih =>
    have hpos := c.utf8Size_pos
    rw [byteLength_cons] at h ⊢
    rw [blanked, h offset le_rfl (by omega), ih fun n hlow hhigh => h n (by omega) (by omega), if_pos rfl,
      List.replicate_append_replicate]

theorem blanked_eq_self {cs : List Char}
    (h : ∀ n, offset ≤ n → n < offset + byteLength cs → covered n = false) :
    blanked covered offset cs = cs := by
  induction cs generalizing offset with
  | nil => rfl
  | cons c cs ih =>
    have hpos := c.utf8Size_pos
    rw [byteLength_cons] at h
    rw [blanked, h offset le_rfl (by omega), ih fun n hlow hhigh => h n (by omega) (by omega)]
    rfl

theorem bytes_append (cs ds : List Char) : bytes (cs ++ ds) = bytes cs ++ bytes ds :=
  List.flatMap_append

theorem bytes_replicate_space (n : Nat) : bytes (List.replicate n ' ') = List.replicate n 0x20 := by
  have hspace : String.utf8EncodeChar ' ' = [0x20] := by decide
  induction n with
  | zero => rfl
  | succ n ih => rw [List.replicate_succ, bytes_cons, ih, hspace, List.replicate_succ,
      List.singleton_append]

/-- Where the bytes of each character are covered together, every covered byte becomes a space, and no
other byte changes. -/
theorem bytes_blanked {cs : List Char}
    (h : ∀ before c after, cs = before ++ c :: after → ∀ n, offset + byteLength before ≤ n →
      n < offset + byteLength before + c.utf8Size → covered n = covered (offset + byteLength before)) :
    bytes (blanked covered offset cs) =
      (bytes cs).mapIdx fun n b => if covered (offset + n) then 0x20 else b := by
  induction cs generalizing offset with
  | nil => rfl
  | cons c cs ih =>
    have hlength := String.length_utf8EncodeChar c
    have hfirst := h [] c cs rfl
    rw [byteLength_nil, Nat.add_zero] at hfirst
    have hrest : bytes (blanked covered (offset + c.utf8Size) cs) =
        (bytes cs).mapIdx fun n b => if covered (offset + c.utf8Size + n) then 0x20 else b := by
      refine ih fun before d after hcs n hlow hhigh => ?_
      have hn := h (c :: before) d after (by rw [hcs, List.cons_append]) n
      rw [byteLength_cons, ← Nat.add_assoc] at hn
      exact hn hlow hhigh
    have hchar : bytes (if covered offset then List.replicate c.utf8Size ' ' else [c]) =
        (String.utf8EncodeChar c).mapIdx fun n b => if covered (offset + n) then 0x20 else b := by
      cases hcovered : covered offset with
      | true =>
        rw [if_pos rfl, bytes_replicate_space]
        refine List.ext_getElem (by simp [hlength]) fun n _ hn => ?_
        rw [List.length_mapIdx] at hn
        simp [hfirst (offset + n) (by omega) (by omega), hcovered]
      | false =>
        rw [if_neg Bool.false_ne_true, bytes_cons]
        refine List.ext_getElem (by simp [bytes]) fun n _ hn => ?_
        rw [List.length_mapIdx] at hn
        simp [bytes, hfirst (offset + n) (by omega) (by omega), hcovered]
    rw [blanked, bytes_append, hchar, hrest, bytes_cons, List.mapIdx_append, hlength]
    simp only [Nat.add_assoc, Nat.add_comm c.utf8Size]

/-- Only spaces are put into a text, so it begins with these marks only if it did so before. -/
theorem isPrefixOf_of_blanked {marks cs : List Char} (hmarks : ' ' ∉ marks)
    (h : marks <+: blanked covered offset cs) : marks <+: cs := by
  induction marks generalizing offset cs with
  | nil => exact List.nil_prefix
  | cons m marks ih =>
    cases cs with
    | nil => exact absurd h (by simp [blanked])
    | cons c cs =>
      rw [List.mem_cons, not_or] at hmarks
      rw [blanked] at h
      cases hcovered : covered offset with
      | true =>
        obtain ⟨n, hn⟩ := Nat.exists_eq_succ_of_ne_zero c.utf8Size_pos.ne'
        rw [hcovered, if_pos rfl, hn, List.replicate_succ, List.cons_append,
          List.cons_prefix_cons] at h
        exact absurd h.1.symm hmarks.1
      | false =>
        rw [hcovered, if_neg Bool.false_ne_true, List.singleton_append, List.cons_prefix_cons] at h
        exact List.cons_prefix_cons.mpr ⟨h.1, ih hmarks.2 h.2⟩

end Text

open Text

namespace Piece

/-! ## Pieces without errors -/

/-- Spaces that take this many bytes. -/
def spaces (n : Nat) : List Piece := List.replicate n ⟨.blank, [' ']⟩

/-- The spaces that stand in the place of an error; any other piece stays. -/
def blankError (p : Piece) : List Piece :=
  if p.tokenKind? = some .error then spaces p.byteLength else [p]

theorem blankError_of_error {p : Piece} (h : p.tokenKind? = some .error) :
    p.blankError = spaces p.byteLength := if_pos h

theorem blankError_of_ne_error {p : Piece} (h : p.tokenKind? ≠ some .error) : p.blankError = [p] :=
  if_neg h

theorem eq_of_mem_spaces {p : Piece} {n : Nat} (h : p ∈ spaces n) : p = ⟨.blank, [' ']⟩ :=
  List.eq_of_mem_replicate h

theorem flatMap_text_spaces (n : Nat) : (spaces n).flatMap text = List.replicate n ' ' := by
  unfold spaces
  induction n with
  | zero => rfl
  | succ n ih => rw [List.replicate_succ, List.flatMap_cons, ih, List.replicate_succ,
      List.singleton_append]

theorem totalLength_spaces (n : Nat) : totalLength (spaces n) = n := by
  have hsize : ' '.utf8Size = 1 := by decide
  rw [totalLength, flatMap_text_spaces]
  induction n with
  | zero => rfl
  | succ n ih => rw [List.replicate_succ, Text.byteLength_cons, ih, hsize, Nat.add_comm]

theorem tokens_spaces (offset n : Nat) : tokens offset (spaces n) = [] := by
  rw [List.eq_nil_iff_forall_not_mem]
  intro t ht
  obtain ⟨qs, p, rs, hps, hp⟩ := mem_tokens_iff.mp ht
  have hblank := eq_of_mem_spaces (hps ▸ List.mem_append_right qs List.mem_cons_self)
  subst hblank
  cases hp

theorem comments_spaces (offset n : Nat) : comments offset (spaces n) = [] := by
  rw [List.eq_nil_iff_forall_not_mem]
  intro s hs
  obtain ⟨qs, p, rs, hps, hp, -⟩ := mem_comments_iff.mp hs
  have hblank := eq_of_mem_spaces (hps ▸ List.mem_append_right qs List.mem_cons_self)
  subst hblank
  cases hp

theorem totalLength_blankError (p : Piece) : totalLength p.blankError = p.byteLength := by
  by_cases h : p.tokenKind? = some .error
  · rw [blankError_of_error h, totalLength_spaces]
  · rw [blankError_of_ne_error h, totalLength_cons, totalLength_nil, Nat.add_zero]

theorem totalLength_flatMap_blankError (ps : List Piece) :
    totalLength (ps.flatMap blankError) = totalLength ps := by
  induction ps with
  | nil => rfl
  | cons p ps ih =>
    rw [List.flatMap_cons, totalLength_append, totalLength_blankError, ih, totalLength_cons]

theorem tokens_blankError (offset : Nat) (p : Piece) :
    tokens offset p.blankError = (p.token? offset).toList.filter (·.kind ≠ .error) := by
  by_cases h : p.tokenKind? = some .error
  · obtain ⟨t, ht⟩ : ∃ t, p.token? offset = some t := by simp [token?, h]
    have hkind : t.kind = .error := Option.some.inj ((kind_of_token? ht).symm.trans h)
    rw [blankError_of_error h, tokens_spaces, ht]
    simp [hkind]
  · rw [blankError_of_ne_error h, tokens_cons, tokens_nil, List.append_nil, List.filter_eq_self.mpr]
    intro t ht
    have hkind := kind_of_token? (Option.mem_toList.mp ht)
    rw [hkind] at h
    simpa using h

theorem comments_blankError (offset : Nat) (p : Piece) :
    comments offset p.blankError = if p.isComment then [p.spanAt offset] else [] := by
  by_cases h : p.tokenKind? = some .error
  · rw [blankError_of_error h, comments_spaces, if_neg]
    rw [isComment_eq_false (by simp [h])]
    exact Bool.false_ne_true
  · rw [blankError_of_ne_error h, comments_cons, comments_nil, List.append_nil]

/-- The tokens that are left are the ones that are no errors, where they were. -/
theorem tokens_flatMap_blankError (offset : Nat) (ps : List Piece) :
    tokens offset (ps.flatMap blankError) = (tokens offset ps).filter (·.kind ≠ .error) := by
  induction ps generalizing offset with
  | nil => rfl
  | cons p ps ih =>
    rw [List.flatMap_cons, tokens_append, ih, tokens_blankError, totalLength_blankError, tokens_cons,
      List.filter_append]

theorem comments_flatMap_blankError (offset : Nat) (ps : List Piece) :
    comments offset (ps.flatMap blankError) = comments offset ps := by
  induction ps generalizing offset with
  | nil => rfl
  | cons p ps ih =>
    rw [List.flatMap_cons, comments_append, ih, comments_blankError, totalLength_blankError,
      comments_cons]

theorem blanked_flatMap_text {covered : Nat → Bool} {offset : Nat} {ps : List Piece}
    (h : ∀ x ∈ placed offset ps, ∀ n, x.2.Covers n →
      (covered n = true ↔ x.1.tokenKind? = some .error)) :
    blanked covered offset (ps.flatMap text) = (ps.flatMap blankError).flatMap text := by
  induction ps generalizing offset with
  | nil => rfl
  | cons p ps ih =>
    have hp : ∀ n, offset ≤ n → n < offset + p.byteLength →
        (covered n = true ↔ p.tokenKind? = some .error) :=
      fun n hlow hhigh => h (p, p.spanAt offset) List.mem_cons_self n ⟨hlow, hhigh⟩
    have hps := ih fun x hx => h x (List.mem_cons_of_mem _ hx)
    rw [List.flatMap_cons, blanked_append, ← Piece.byteLength, hps, List.flatMap_cons,
      List.flatMap_append]
    congr 1
    by_cases herror : p.tokenKind? = some .error
    · rw [blankError_of_error herror, flatMap_text_spaces]
      exact blanked_eq_replicate fun n hlow hhigh => (hp n hlow hhigh).mpr herror
    · rw [blankError_of_ne_error herror, List.flatMap_singleton]
      refine blanked_eq_self fun n hlow hhigh => ?_
      rw [← Bool.not_eq_true]
      exact mt (hp n hlow hhigh).mp herror

end Piece

namespace Context

/-- An error leaves the context as it was, unless it reaches up to the end. -/
theorem after_error (k : Context) {c : Char} {cs : List Char}
    (h : (k.read c cs).1.tokenKind? = some .error) :
    k.after (k.read c cs).1 = k ∨ (k.read c cs).2 = [] := by
  have hreads := k.reads_read c cs
  generalize k.read c cs = r at h hreads
  obtain ⟨p, rest⟩ := r
  dsimp only at h hreads ⊢
  cases hreads with
  | openTemplate hc opened => exact Or.inr (Reading.rest_template opened)
  | openComment | openString | openRegex | invalid => exact Or.inl rfl
  | _ => cases h

/-- No piece takes in the beginning of the text behind it, also when its errors are blanked. -/
theorem absorbs_head?_blankErrors (k : Context) {c d : Char} {cs : List Char}
    (hd : ((((k.after (k.read c cs).1).pieces (k.read c cs).2).flatMap Piece.blankError).flatMap
      Piece.text).head? = some d) : (k.read c cs).1.absorbs d = false := by
  have hreads := k.reads_read c cs
  generalize (k.read c cs).1 = p at hreads hd ⊢
  cases hrest : (k.read c cs).2 with
  | nil =>
    rw [hrest] at hd
    simp at hd
  | cons e es =>
    rw [hrest] at hreads hd
    have hstop := hreads.absorbs_eq_false (List.head?_cons (a := e) (l := es))
    rw [pieces_cons, List.flatMap_cons, List.flatMap_append] at hd
    by_cases herror : ((k.after p).read e es).1.tokenKind? = some .error
    · have hpos := Piece.byteLength_pos (Piece.read_text_ne_nil (k.after p).slashOpensRegex
        (k.after p).braceResumesTemplate e es)
      obtain ⟨n, hn⟩ := Nat.exists_eq_succ_of_ne_zero hpos.ne'
      rw [Piece.blankError_of_error herror, Context.read, hn, Piece.flatMap_text_spaces,
        List.replicate_succ, List.cons_append, List.head?_cons, Option.some.injEq] at hd
      subst hd
      refine Piece.absorbs_eq_false ?_ (by decide) (by decide) (by decide)
      -- Behind a line comment stands a line feed, and that is no error.
      intro hkind
      have hfeed : e = '\n' := by
        obtain ⟨kind, text⟩ := p
        obtain rfl : kind = .lineComment := hkind
        simpa using hstop
      subst hfeed
      rw [read_blank _ (by decide)] at herror
      cases herror
    · rw [Piece.blankError_of_ne_error herror, List.flatMap_singleton,
        (reads_read _ e es).text_eq_cons, List.cons_append, List.head?_cons, Option.some.injEq] at hd
      rwa [← hd]

/-- With blanks in the place of its errors, a text falls into its other pieces and these blanks. -/
theorem pieces_blankErrors (k : Context) (cs : List Char) :
    k.pieces (((k.pieces cs).flatMap Piece.blankError).flatMap Piece.text) =
      (k.pieces cs).flatMap Piece.blankError := by
  induction k, cs using pieces.induct with
  | case1 k => simp
  | case2 k c cs ih =>
    rw [pieces_cons, List.flatMap_cons, List.flatMap_append]
    by_cases herror : (k.read c cs).1.tokenKind? = some .error
    · have hrest : ∀ ps, ps = ((k.after (k.read c cs).1).pieces (k.read c cs).2).flatMap
          Piece.blankError → k.pieces (ps.flatMap Piece.text) = ps := by
        rintro ps rfl
        rcases k.after_error herror with hafter | hend
        · rw [hafter] at ih ⊢
          exact ih
        · rw [hend]
          simp
      have hblank : ∀ d ∈ List.replicate (k.read c cs).1.byteLength ' ', isBlank d = true := by
        intro d hd
        rw [List.eq_of_mem_replicate hd]
        decide
      rw [Piece.blankError_of_error herror, Piece.flatMap_text_spaces,
        k.pieces_blanks_append hblank, List.map_replicate, hrest _ rfl]
      rfl
    · have hreads := k.reads_read c cs
      have hlegible : (k.read c cs).1.Legible := ⟨herror, _, _, c, cs, _, hreads⟩
      rw [Piece.blankError_of_ne_error herror, List.flatMap_singleton, pieces_text_append hlegible
        hreads.fits, ih]
      · rfl
      · exact fun d hd => k.absorbs_head?_blankErrors hd

end Context

namespace Lexed

/-- The places of the errors of a text. -/
def errorSpans (text : String) : List Span :=
  ((ofText text).tokens.filter (·.kind = .error)).map Token.span

/-- The text with a space for each byte of its errors. -/
def blankErrors (text : String) : String :=
  String.ofList (blanked (Span.covered (errorSpans text)) 0 text.toList)

variable (text : String)

theorem mem_errorSpans_iff {s : Span} : s ∈ errorSpans text ↔
    ∃ p, (p, s) ∈ Piece.placed (Lexer.programStart text) (Piece.ofText text) ∧
      p.tokenKind? = some .error := by
  constructor
  · intro hs
    obtain ⟨t, ht, rfl⟩ := List.mem_map.mp hs
    obtain ⟨ht, hkind⟩ := List.mem_filter.mp ht
    have hkind : t.kind = .error := by simpa using hkind
    rcases mem_tokens_iff.mp ht with ⟨qs, p, rs, hps, hp⟩ | rfl
    · refine ⟨p, Piece.mem_placed_iff.mpr ⟨qs, rs, hps, Piece.span_of_token? hp⟩, ?_⟩
      rw [Piece.kind_of_token? hp, hkind]
    · cases hkind
  · rintro ⟨p, hp, herror⟩
    obtain ⟨qs, rs, hps, rfl⟩ := Piece.mem_placed_iff.mp hp
    obtain ⟨t, ht⟩ : ∃ t, p.token? (Lexer.programStart text + Piece.totalLength qs) = some t := by
      simp [Piece.token?, herror]
    have hkind : t.kind = .error :=
      Option.some.inj ((Piece.kind_of_token? ht).symm.trans herror)
    refine List.mem_map.mpr ⟨t, List.mem_filter.mpr ⟨?_, by simpa using hkind⟩, Piece.span_of_token? ht⟩
    exact mem_tokens_iff.mpr (Or.inl ⟨qs, p, rs, hps, ht⟩)

theorem covered_errorSpans_iff {x : Piece × Span}
    (hx : x ∈ Piece.placed (Lexer.programStart text) (Piece.ofText text)) {n : Nat}
    (hn : x.2.Covers n) :
    Span.covered (errorSpans text) n = true ↔ x.1.tokenKind? = some .error := by
  rw [Span.covered_iff]
  constructor
  · rintro ⟨s, hs, hcovers⟩
    obtain ⟨p, hp, herror⟩ := (mem_errorSpans_iff text).mp hs
    rcases Piece.eq_or_apart hp hx with rfl | hapart | hapart
    · exact herror
    · exact absurd (hcovers.2.trans_le hapart) (Nat.not_lt.mpr hn.1)
    · exact absurd (hn.2.trans_le hapart) (Nat.not_lt.mpr hcovers.1)
  · intro herror
    exact ⟨x.2, (mem_errorSpans_iff text).mpr ⟨x.1, hx, herror⟩, hn⟩

theorem toList_blankErrors : (blankErrors text).toList =
    Lexer.interpreterLine text.toList ++
      ((Piece.ofText text).flatMap Piece.blankError).flatMap Piece.text := by
  have hline : ∀ n, 0 ≤ n → n < 0 + byteLength (Lexer.interpreterLine text.toList) →
      Span.covered (errorSpans text) n = false := by
    intro n _ hn
    rw [← Bool.not_eq_true, Span.covered_iff]
    rintro ⟨s, hs, hcovers⟩
    obtain ⟨p, hp, -⟩ := (mem_errorSpans_iff text).mp hs
    obtain ⟨qs, rs, -, rfl⟩ := Piece.mem_placed_iff.mp hp
    have hlow := hcovers.1
    rw [Piece.spanAt_start, Lexer.programStart] at hlow
    omega
  have hprogram : Lexer.program text = (Piece.ofText text).flatMap Piece.text := by
    rw [Piece.ofText, Context.flatMap_text_pieces]
  rw [blankErrors, String.toList_ofList]
  conv_lhs => rw [← Lexer.interpreterLine_append_program text]
  rw [blanked_append, blanked_eq_self hline, hprogram, Nat.zero_add]
  congr 1
  exact Piece.blanked_flatMap_text fun x hx n hn => covered_errorSpans_iff text hx hn

theorem interpreterLine_blankErrors :
    Lexer.interpreterLine (blankErrors text).toList = Lexer.interpreterLine text.toList := by
  by_cases hline : Lexer.interpreterLine text.toList = []
  · rw [hline]
    unfold Lexer.interpreterLine at hline ⊢
    split
    · next hprefix =>
      rw [List.isPrefixOf_iff_prefix, blankErrors, String.toList_ofList] at hprefix
      obtain ⟨cs, hcs⟩ := isPrefixOf_of_blanked (by decide) hprefix
      rw [← hcs] at hline
      exact absurd hline (by simp)
    · rfl
  · rw [toList_blankErrors]
    apply Lexer.interpreterLine_append hline
    intro d hd
    -- The program begins with the line feed behind the line, which is a blank and stays.
    cases hprogram : Lexer.program text with
    | nil => simp [Piece.ofText, hprogram] at hd
    | cons c cs =>
      obtain rfl : c = '\n' := Lexer.head?_program hline c (by rw [hprogram]; rfl)
      rw [Piece.ofText, hprogram, Context.pieces_cons, Context.read_blank {} (by decide),
        List.flatMap_cons, Piece.blankError_of_ne_error (by simp [Piece.tokenKind?])] at hd
      simpa using hd.symm

theorem ofText_blankErrors :
    Piece.ofText (blankErrors text) = (Piece.ofText text).flatMap Piece.blankError := by
  have hprogram := (Lexer.program_eq_iff (toList_blankErrors text)).mpr
    (interpreterLine_blankErrors text)
  conv_lhs => rw [Piece.ofText, hprogram]
  exact Context.pieces_blankErrors {} (Lexer.program text)

/-- Errors do not show in what is read around them: with a space for each of their bytes, a text has the
same tokens and comments at the same places, without the errors, and so the same statements. -/
theorem tokens_blankErrors :
    (blankErrors text).toUTF8.data.toList = (text.toUTF8.data.toList.mapIdx fun n b =>
        if Span.covered (errorSpans text) n then 0x20 else b) ∧
      (ofText (blankErrors text)).tokens = (ofText text).tokens.filter (·.kind ≠ .error) ∧
      (∀ t ∈ (ofText (blankErrors text)).tokens, t.kind ≠ .error) ∧
      (ofText (blankErrors text)).comments = (ofText text).comments ∧
      (Outline.ofTokens (ofText (blankErrors text)).tokens).statements =
        (Outline.ofTokens (ofText text).tokens).statements := by
  have hstart : Lexer.programStart (blankErrors text) = Lexer.programStart text := by
    rw [Lexer.programStart, interpreterLine_blankErrors, Lexer.programStart]
  have hlength : byteLength (blankErrors text).toList = byteLength text.toList := by
    rw [← Lexer.programStart_add_totalLength, ← Lexer.programStart_add_totalLength,
      ofText_blankErrors, hstart, Piece.totalLength_flatMap_blankError]
  have htokens : (ofText (blankErrors text)).tokens =
      (ofText text).tokens.filter (·.kind ≠ .error) := by
    rw [tokens_ofText, tokens_ofText, ofText_blankErrors, hstart, hlength,
      Piece.tokens_flatMap_blankError, List.filter_append]
    rfl
  refine ⟨?_, htokens, ?_, ?_, ?_⟩
  · rw [toUTF8_eq_bytes, toUTF8_eq_bytes, blankErrors, String.toList_ofList, bytes_blanked]
    · simp only [Nat.zero_add]
    · intro before c after htext n hlow hhigh
      rw [Nat.zero_add] at hlow hhigh ⊢
      have hfits : ∀ s ∈ errorSpans text, s.Fits (before ++ c :: after) := by
        intro s hs
        obtain ⟨p, hp, -⟩ := (mem_errorSpans_iff text).mp hs
        rw [← htext]
        exact Piece.fits_of_mem_placed hp
      exact Span.covered_eq_of_fits hfits hlow hhigh
  · intro t ht
    rw [htokens] at ht
    simpa using (List.mem_filter.mp ht).2
  · rw [comments_ofText, comments_ofText, ofText_blankErrors, hstart,
      Piece.comments_flatMap_blankError]
  · have hsignificant : ∀ ts : List Token, Outline.significant (ts.filter (·.kind ≠ .error)) =
        Outline.significant ts := by
      intro ts
      rw [Outline.significant, List.filter_filter, Outline.significant]
      apply List.filter_congr
      intro t _
      by_cases hkind : t.kind = .error <;> simp [Token.isSignificant, hkind]
    rw [Outline.ofTokens, Outline.ofTokens, htokens, hsignificant]

end Lexed

end ModuleBuild
