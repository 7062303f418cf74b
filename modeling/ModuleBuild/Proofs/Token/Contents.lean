import ModuleBuild.Proofs.Token.Lossless
import ModuleBuild.Proofs.Token.Rereading

/-!
# What a text says

What the tokens of a text say is what its pieces say: the kind and the text of each, wherever it
stands. Blanks and comments say nothing, and in a text without comments and errors whatever is not blank
belongs to a token. So such a text cannot hide anything between its tokens, and its pieces can be told
from the text and from what the tokens say.

Main statements: `Lexed.map_content_tokens`; `Piece.visible_flatMap_text` and `Piece.eq_of_content_eq`,
about texts without comments; and the lemmas about the line that names an interpreter, which is skipped
before the first piece.
-/

namespace ModuleBuild

open Text

/-! ## What tokens say -/

/-- What a token says, wherever it stands. -/
def Token.content (t : Token) : Token.Kind × String := (t.kind, t.text)

namespace Piece

/-- What the token says that the piece is. -/
def content? (p : Piece) : Option (Token.Kind × String) := (p.token? 0).map Token.content

theorem map_content_token? (p : Piece) (offset : Nat) :
    (p.token? offset).map Token.content = p.content? := by
  obtain ⟨kind, text⟩ := p
  cases kind <;> rfl

@[simp] theorem map_fst_placed (offset : Nat) (ps : List Piece) :
    (placed offset ps).map (·.1) = ps := by
  induction ps generalizing offset with
  | nil => rfl
  | cons p ps ih => rw [placed, List.map_cons, ih]

theorem map_content_filter_tokens (at? : Nat → Bool) (offset : Nat) (ps : List Piece) :
    ((tokens offset ps).filter fun t => at? t.span.start).map Token.content =
      (((placed offset ps).filter fun x => at? x.2.start).map (·.1)).filterMap content? := by
  induction ps generalizing offset with
  | nil => rfl
  | cons p ps ih =>
    rw [tokens_cons, List.filter_append, List.map_append, ih, placed, List.filter_cons]
    have hcontent := p.map_content_token? offset
    cases htoken : p.token? offset with
    | none =>
      rw [htoken] at hcontent
      have hnone : p.content? = none := hcontent.symm
      split <;> simp [hnone]
    | some t =>
      rw [htoken] at hcontent
      have hsome : p.content? = some t.content := hcontent.symm
      have hstart : t.span.start = offset := by rw [span_of_token? htoken, spanAt_start]
      cases hat : at? offset <;> simp [hstart, hat, hsome]

theorem map_content_tokens (offset : Nat) (ps : List Piece) :
    (tokens offset ps).map Token.content = ps.filterMap content? := by
  simpa using map_content_filter_tokens (fun _ => true) offset ps

end Piece

theorem Lexed.map_content_tokens (text : String) :
    (ofText text).tokens.map Token.content =
      (Piece.ofText text).filterMap Piece.content? ++ [(.endOfText, "")] := by
  rw [tokens_ofText, List.map_append, Piece.map_content_tokens]
  rfl

theorem Piece.legible_of_mem_ofText {text : String}
    (h : ∀ t ∈ (Lexed.ofText text).tokens, t.kind ≠ .error) {p : Piece} (hp : p ∈ ofText text) :
    p.Legible :=
  Context.legible_of_mem_pieces hp (tokenKind?_ne_error h p hp)

/-! ## Blanks and tokens -/

namespace Piece

theorem content?_eq_some {p : Piece} {kind : Token.Kind} (h : p.tokenKind? = some kind)
    (herror : kind ≠ .error) : p.content? = some (kind, String.ofList p.text) := by
  obtain ⟨pieceKind, text⟩ := p
  cases pieceKind with
  | fault error =>
    simp only [tokenKind?, Option.some.injEq] at h
    exact absurd h.symm herror
  | _ => simp_all [content?, token?, tokenKind?, Token.content]

theorem content?_eq_none_of_isComment {p : Piece} (h : p.isComment = true) : p.content? = none := by
  rw [content?, token?_eq_none_of_isComment h]
  rfl

theorem eq_of_tokenKind?_eq {p q : Piece} {kind : Token.Kind} (hp : p.tokenKind? = some kind)
    (hq : q.tokenKind? = some kind) (herror : kind ≠ .error) (htext : p.text = q.text) : p = q := by
  have hsame : p.tokenKind? = q.tokenKind? := hp.trans hq.symm
  obtain ⟨pKind, pText⟩ := p
  obtain ⟨qKind, qText⟩ := q
  obtain rfl : pText = qText := htext
  cases pKind <;> cases qKind <;> simp [tokenKind?] at hsame hp ⊢
  exact absurd hp.symm herror

/-- The characters of a text that are not blank. -/
def visible (cs : List Char) : List Char := cs.filter fun c => !isBlank c

theorem visible_append (cs ds : List Char) : visible (cs ++ ds) = visible cs ++ visible ds :=
  List.filter_append ..

/-- Without comments, what is visible of a text is what is visible of its tokens. -/
theorem visible_flatMap_text {ps : List Piece}
    (hps : ∀ p ∈ ps, p.Legible ∧ p.isComment = false) :
    visible (ps.flatMap text) = (ps.filterMap content?).flatMap fun x => visible x.2.toList := by
  induction ps with
  | nil => rfl
  | cons p ps ih =>
    obtain ⟨hlegible, hcomment⟩ := hps p List.mem_cons_self
    rw [List.flatMap_cons, visible_append, ih fun q hq => hps q (List.mem_cons_of_mem _ hq)]
    rcases hlegible.cases with h | ⟨c, rfl, hblank⟩ | ⟨kind, c, cs, hkind, herror, -, -⟩
    · rw [hcomment] at h
      cases h
    · have hnone : content? ⟨.blank, [c]⟩ = none := rfl
      simp [hnone, visible, hblank]
    · simp [content?_eq_some hkind herror]

/-- Without comments, pieces that say the same in the same text are the same. -/
theorem eq_of_content_eq {ps qs : List Piece}
    (hps : ∀ p ∈ ps, p.Legible ∧ p.isComment = false)
    (hqs : ∀ q ∈ qs, q.Legible ∧ q.isComment = false)
    (htext : ps.flatMap text = qs.flatMap text)
    (hcontent : ps.filterMap content? = qs.filterMap content?) : ps = qs := by
  induction ps generalizing qs with
  | nil =>
    cases qs with
    | nil => rfl
    | cons q qs =>
      refine absurd htext.symm ?_
      simp [(hqs q List.mem_cons_self).1.text_ne_nil]
  | cons p ps ih =>
    cases qs with
    | nil => exact absurd htext (by simp [(hps p List.mem_cons_self).1.text_ne_nil])
    | cons q qs =>
      have hpq : p = q := by
        obtain ⟨hp, hpcomment⟩ := hps p List.mem_cons_self
        obtain ⟨hq, hqcomment⟩ := hqs q List.mem_cons_self
        rw [List.flatMap_cons, List.flatMap_cons] at htext
        rcases hp.cases with h | ⟨c, rfl, hc⟩ | ⟨kind, c, cs, hkind, herror, hptext, hc⟩
        · rw [hpcomment] at h
          cases h
        · rcases hq.cases with h | ⟨d, rfl, hd⟩ | ⟨kind, d, ds, hkind, herror, hqtext, hd⟩
          · rw [hqcomment] at h
            cases h
          · simp at htext
            rw [htext.1]
          · rw [hqtext] at htext
            simp at htext
            rw [htext.1, hd] at hc
            cases hc
        · rcases hq.cases with h | ⟨d, rfl, hd⟩ | ⟨kind', d, ds, hkind', herror', hqtext, hd⟩
          · rw [hqcomment] at h
            cases h
          · rw [hptext] at htext
            simp at htext
            rw [htext.1, hd] at hc
            cases hc
          · rw [List.filterMap_cons_some (content?_eq_some hkind herror),
              List.filterMap_cons_some (content?_eq_some hkind' herror')] at hcontent
            have hfirst := (List.cons.inj hcontent).1
            simp only [Prod.mk.injEq, String.ofList_inj] at hfirst
            obtain ⟨rfl, hsame⟩ := hfirst
            exact eq_of_tokenKind?_eq hkind hkind' herror hsame
      subst hpq
      rw [List.flatMap_cons, List.flatMap_cons] at htext
      have hrest : ps.filterMap content? = qs.filterMap content? := by
        cases hp : p.content? with
        | none => rwa [List.filterMap_cons_none hp, List.filterMap_cons_none hp] at hcontent
        | some x =>
          rw [List.filterMap_cons_some hp, List.filterMap_cons_some hp] at hcontent
          exact (List.cons.inj hcontent).2
      rw [ih (fun r hr => hps r (List.mem_cons_of_mem _ hr))
        (fun r hr => hqs r (List.mem_cons_of_mem _ hr)) (List.append_cancel_left htext) hrest]

end Piece

theorem Lexed.comments_eq_nil_iff {text : String} :
    (Lexed.ofText text).comments = [] ↔ ∀ p ∈ Piece.ofText text, p.isComment = false := by
  rw [comments_ofText, Piece.comments, List.map_eq_nil_iff, List.filter_eq_nil_iff,
    ← Piece.map_fst_placed (Lexer.programStart text) (Piece.ofText text), List.forall_mem_map,
    Piece.map_fst_placed]
  exact forall₂_congr fun _ _ => by rw [Bool.not_eq_true]

/-! ## The first line -/

namespace Lexer

/-- A text whose program is to begin behind `line` has the rest for its program exactly if that is
the line at its front. -/
theorem program_eq_iff {text : String} {line rest : List Char} (h : text.toList = line ++ rest) :
    program text = rest ↔ interpreterLine text.toList = line := by
  have hsplit := interpreterLine_append_program text
  constructor
  · intro hrest
    rw [hrest, h] at hsplit
    rw [h]
    exact List.append_cancel_right hsplit
  · intro hline
    rw [hline, h] at hsplit
    exact List.append_cancel_left hsplit

theorem interpreterLine_append {cs rest : List Char} (hline : interpreterLine cs ≠ [])
    (hrest : ∀ d, rest.head? = some d → d = '\n') :
    interpreterLine (interpreterLine cs ++ rest) = interpreterLine cs := by
  have hprefix : ['#', '!'].isPrefixOf cs = true := by
    by_contra hnone
    exact hline (by rw [interpreterLine, if_neg hnone])
  obtain ⟨ds, rfl⟩ : ∃ ds, cs = '#' :: '!' :: ds := by
    obtain ⟨ds, hds⟩ := List.isPrefixOf_iff_prefix.mp hprefix
    exact ⟨ds, hds.symm⟩
  have htake : interpreterLine ('#' :: '!' :: ds) = '#' :: '!' :: ds.takeWhile (· != '\n') := by
    simp [interpreterLine]
  have hagain : (ds.takeWhile (· != '\n') ++ rest).takeWhile (· != '\n') = ds.takeWhile (· != '\n') :=
    (Piece.takeWhile_append_stop _ ds fun d hd => by simp [hrest d hd]).1
  rw [htake]
  simp [interpreterLine, hagain]

/-- Behind the line that names the interpreter the program begins with a line feed. -/
theorem head?_program {text : String} (hline : interpreterLine text.toList ≠ []) :
    ∀ d, (program text).head? = some d → d = '\n' := by
  intro d hd
  have hdrop : program text = text.toList.dropWhile (· != '\n') := by
    have hsplit := interpreterLine_append_program text
    have htake : interpreterLine text.toList = text.toList.takeWhile (· != '\n') := by
      unfold interpreterLine at hline ⊢
      split
      · rfl
      · next h => exact absurd (if_neg h) hline
    rw [htake] at hsplit
    refine List.append_cancel_left (hsplit.trans ?_)
    rw [List.takeWhile_append_dropWhile]
  have hstop := List.head?_dropWhile_not (· != '\n') text.toList
  rw [hdrop] at hd
  rw [hd] at hstop
  simpa using hstop

theorem interpreterLine_eq_nil {cs : List Char} (h : Piece.visible (interpreterLine cs) = []) :
    interpreterLine cs = [] := by
  unfold interpreterLine at h ⊢
  split
  · next hprefix =>
    obtain ⟨ds, rfl⟩ := List.isPrefixOf_iff_prefix.mp hprefix
    rw [if_pos hprefix] at h
    have hvisible : isBlank '#' = false := by decide
    simp [Piece.visible, hvisible] at h
  · rfl

end Lexer

end ModuleBuild
