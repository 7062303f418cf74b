import ModuleBuild.Proofs.Engine.Erasure
import ModuleBuild.Proofs.Token.Contents

/-!
# What compiling leaves

Erased spans begin and end between pieces, so a piece is erased with all of its bytes or not at all,
and the emitted text is made up of the pieces that are left. Reading it gives these pieces back unless
two of them that have become neighbours run together, or one of them means something else where the
erased ones no longer stand before it, or the text now begins like a line that names an interpreter.

Main statements: `Erasure.erase_eq_kept`, by which the emitted text consists of the pieces that are
left; and `Erasure.ofText_erase_eq_kept_iff`, by which it falls into the same pieces exactly if none of
these things happens.
-/

namespace ModuleBuild

open Text

/-! ## Pieces that stay -/

namespace Piece

theorem without_flatMap_text {erased : Nat → Bool} {offset : Nat} {ps : List Piece}
    (h : ∀ x ∈ placed offset ps, ∀ n, x.2.Covers n → erased n = erased x.2.start) :
    without erased offset (ps.flatMap text) =
      (((placed offset ps).filter fun x => !erased x.2.start).map (·.1)).flatMap text := by
  induction ps generalizing offset with
  | nil => rfl
  | cons p ps ih =>
    have hp : ∀ n, offset ≤ n → n < offset + p.byteLength → erased n = erased offset :=
      fun n hlow hhigh => h (p, p.spanAt offset) List.mem_cons_self n ⟨hlow, hhigh⟩
    have hps := ih fun x hx => h x (List.mem_cons_of_mem _ hx)
    rw [List.flatMap_cons, without_append, ← Piece.byteLength, hps, placed, List.filter_cons]
    by_cases herased : erased offset = true
    · rw [without_eq_nil fun n hlow hhigh => (hp n hlow hhigh).trans herased]
      simp [herased]
    · rw [Bool.not_eq_true] at herased
      rw [without_eq_self fun n hlow hhigh => (hp n hlow hhigh).trans herased]
      simp [herased]

end Piece

/-- Where the rest of a line covers the first byte of a piece, the piece is a blank. -/
theorem Span.IsRestOfLine.isBlank_of_covers {before after : List Char} {c : Char} {r : Span}
    (hr : r.IsRestOfLine (before ++ c :: after)) (hcovers : r.Covers (byteLength before)) :
    isBlank c = true := by
  obtain ⟨front, blanks, behind, hsplit, rfl, hblanks⟩ := hr
  obtain ⟨x, rfl, hx⟩ := exists_append_of_le hsplit.symm hcovers.1
  have hinside : byteLength x < byteLength (blanks ++ ['\n']) := by
    have hhigh := hcovers.2
    simp only [byteLength_append front] at hhigh
    omega
  have hline : blanks ++ '\n' :: behind = (blanks ++ ['\n']) ++ behind := by simp
  rw [hline] at hx
  obtain ⟨y, hy, hbehind⟩ := exists_append_of_le hx.symm hinside.le
  cases y with
  | nil =>
    rw [hy, List.append_nil] at hinside
    omega
  | cons d y =>
    obtain ⟨rfl, -⟩ := List.cons.inj hbehind
    have hmem : c ∈ blanks ++ ['\n'] := by
      rw [hy]
      simp
    rcases List.mem_append.mp hmem with hc | hc
    · exact (hblanks c hc).1
    · rw [List.mem_singleton.mp hc]
      decide

namespace Erasure

section

variable {name text : String} {removeComments : Bool} {p : Piece} {s : Span}

theorem kind_eq_blank_of_isRestOfLine
    (hp : (p, s) ∈ Piece.placed (Lexer.programStart text) (Piece.ofText text)) {r : Span}
    (hr : r.IsRestOfLine text.toList) (hcovers : r.Covers s.start) : p.kind = .blank := by
  obtain ⟨k, before, c, cs, htext, -, rfl, rfl⟩ := Piece.exists_read_of_mem_placed hp
  rw [htext] at hr
  have hblank := hr.isBlank_of_covers hcovers
  simp [Context.read, Piece.read, hblank]

/-- A span between cuts covers all bytes of a piece or none. -/
theorem covers_iff_of_isCut {offset : Nat} {ps : List Piece} (hp : (p, s) ∈ Piece.placed offset ps)
    {u : Span} (hu : Piece.IsCut offset ps u.start ∧ Piece.IsCut offset ps u.stop) {n : Nat}
    (hn : s.Covers n) : u.Covers n ↔ u.Covers s.start := by
  obtain ⟨hlow, hhigh⟩ := hn
  have hstart := hu.1.le_or_ge hp
  have hstop := hu.2.le_or_ge hp
  simp only [Span.Covers]
  omega

/-- So does the rest of a line behind a cut: its pieces are blanks of one character each. -/
theorem covers_iff_of_isRestOfLine
    (hp : (p, s) ∈ Piece.placed (Lexer.programStart text) (Piece.ofText text)) {r : Span}
    (hr : r.IsRestOfLine text.toList)
    (hcut : Piece.IsCut (Lexer.programStart text) (Piece.ofText text) r.start) {n : Nat}
    (hn : s.Covers n) : r.Covers n ↔ r.Covers s.start := by
  by_cases hblank : p.kind = .blank
  · obtain ⟨k, before, c, cs, htext, -, rfl, rfl⟩ := Piece.exists_read_of_mem_placed hp
    have hone := (Piece.text_of_kind_eq_blank hblank).1
    obtain ⟨hlow, hhigh⟩ := hn
    simp only [Piece.spanAt_start, Piece.spanAt_stop, Piece.byteLength, hone, byteLength_cons,
      byteLength_nil] at hlow hhigh
    rw [htext] at hr
    have hstart := hr.fits.start.le_or_ge
    have hstop := hr.fits.stop.le_or_ge
    have hpos := c.utf8Size_pos
    simp only [Span.Covers, Piece.spanAt_start]
    omega
  · have hnone : ¬r.Covers s.start := fun hcovers => hblank (kind_eq_blank_of_isRestOfLine hp hr hcovers)
    obtain ⟨hlow, hhigh⟩ := hn
    have hstart := hcut.le_or_ge hp
    simp only [Span.Covers] at hnone ⊢
    omega

/-- A comment covers the piece that it is and no other. -/
theorem covers_comment_iff
    (hp : (p, s) ∈ Piece.placed (Lexer.programStart text) (Piece.ofText text)) :
    (∃ u ∈ (Lexed.ofText text).comments, u.Covers s.start) ↔ p.isComment = true := by
  have hpos : s.start < s.stop := by
    obtain ⟨k, before, c, cs, -, -, rfl, rfl⟩ := Piece.exists_read_of_mem_placed hp
    exact Nat.lt_add_of_pos_right (Piece.byteLength_pos (Piece.read_text_ne_nil _ _ c cs))
  rw [Lexed.comments_ofText]
  constructor
  · rintro ⟨u, hu, hcovers⟩
    obtain ⟨⟨q, v⟩, hq, rfl⟩ := List.mem_map.mp hu
    obtain ⟨hq, hcomment⟩ := List.mem_filter.mp hq
    rcases Piece.eq_or_apart hq hp with hsame | hapart | hapart
    · obtain ⟨rfl, -⟩ := Prod.mk.inj hsame
      exact hcomment
    · exact absurd hcovers.2 (Nat.not_lt.mpr hapart)
    · exact absurd (hpos.trans_le hapart) (Nat.not_lt.mpr hcovers.1)
  · intro hcomment
    exact ⟨s, List.mem_map.mpr ⟨(p, s), List.mem_filter.mpr ⟨hp, hcomment⟩, rfl⟩, le_rfl, hpos⟩

/-- A piece is erased with all of its bytes or not at all. -/
theorem erased_iff_start
    (hp : (p, s) ∈ Piece.placed (Lexer.programStart text) (Piece.ofText text)) {n : Nat}
    (hn : s.Covers n) :
    Erased (SourceFile.ofText name text) removeComments n ↔
      Erased (SourceFile.ofText name text) removeComments s.start := by
  have hstatement : ∀ u ∈ (SourceFile.ofText name text).statements,
      (u.span.Covers n ↔ u.span.Covers s.start) := fun u hu =>
    covers_iff_of_isCut hp (SourceFile.isCut_of_mem_statements hu) hn
  have hrest : ∀ u ∈ (SourceFile.ofText name text).statements, ∀ r : Span,
      r.IsRestOfLine text.toList → r.start = u.span.stop → (r.Covers n ↔ r.Covers s.start) :=
    fun u hu r hr hstart => covers_iff_of_isRestOfLine hp hr
      (hstart ▸ (SourceFile.isCut_of_mem_statements hu).2) hn
  have hcomment : ∀ u ∈ (Lexed.ofText text).comments, (u.Covers n ↔ u.Covers s.start) := by
    intro u hu
    rw [Lexed.comments_ofText] at hu
    obtain ⟨⟨q, v⟩, hq, rfl⟩ := List.mem_map.mp hu
    exact covers_iff_of_isCut hp (Piece.isCut_of_mem_placed (List.mem_filter.mp hq).1) hn
  constructor
  · intro h
    cases h with
    | statement hu htypes h => exact .statement hu htypes ((hstatement _ hu).mp h)
    | restOfLine hu htypes hr hstart h =>
      exact .restOfLine hu htypes hr hstart ((hrest _ hu _ hr hstart).mp h)
    | comment hremove hu h => exact .comment hremove hu ((hcomment _ hu).mp h)
  · intro h
    cases h with
    | statement hu htypes h => exact .statement hu htypes ((hstatement _ hu).mpr h)
    | restOfLine hu htypes hr hstart h =>
      exact .restOfLine hu htypes hr hstart ((hrest _ hu _ hr hstart).mpr h)
    | comment hremove hu h => exact .comment hremove hu ((hcomment _ hu).mpr h)

theorem programStart_le_of_erased {n : Nat}
    (h : Erased (SourceFile.ofText name text) removeComments n) : Lexer.programStart text ≤ n := by
  cases h with
  | statement hu _ h => exact (SourceFile.isCut_of_mem_statements hu).1.offset_le.trans h.1
  | restOfLine hu _ _ hstart h =>
    exact (SourceFile.isCut_of_mem_statements hu).2.offset_le.trans (hstart ▸ h.1)
  | comment _ hu h =>
    rw [SourceFile.ofText, Lexed.comments_ofText] at hu
    obtain ⟨⟨q, v⟩, hq, rfl⟩ := List.mem_map.mp hu
    exact (Piece.isCut_of_mem_placed (List.mem_filter.mp hq).1).1.offset_le.trans h.1

/-- The pieces of a file that are not erased. -/
def kept (file : SourceFile) (removeComments : Bool) : List Piece :=
  ((Piece.placed (Lexer.programStart file.text) (Piece.ofText file.text)).filter fun x =>
    !Span.covered (spans file removeComments) x.2.start).map (·.1)

/-- What compiling leaves is made up of the pieces that are not erased, behind the line that names the
interpreter. -/
theorem erase_eq_kept (name text : String) (removeComments : Bool) :
    (erase (SourceFile.ofText name text) removeComments).toList =
      Lexer.interpreterLine text.toList ++
        (kept (SourceFile.ofText name text) removeComments).flatMap Piece.text := by
  have hline : without (Span.covered (spans (SourceFile.ofText name text) removeComments)) 0
      (Lexer.interpreterLine text.toList) = Lexer.interpreterLine text.toList := by
    refine without_eq_self fun n _ hhigh => ?_
    rw [Nat.zero_add] at hhigh
    rw [← Bool.not_eq_true, covered_spans_iff]
    exact fun herased => absurd (programStart_le_of_erased herased) (Nat.not_le.mpr hhigh)
  have hprogram : without (Span.covered (spans (SourceFile.ofText name text) removeComments))
      (Lexer.programStart text) (Lexer.program text) =
        (kept (SourceFile.ofText name text) removeComments).flatMap Piece.text := by
    have hpieces : (Piece.ofText text).flatMap Piece.text = Lexer.program text :=
      Context.flatMap_text_pieces ..
    rw [← hpieces]
    refine Piece.without_flatMap_text fun x hx n hn => ?_
    rw [Bool.eq_iff_iff, covered_spans_iff, covered_spans_iff]
    exact erased_iff_start hx hn
  rw [erase_ofText, ← hprogram]
  conv_lhs => rw [← Lexer.interpreterLine_append_program text]
  rw [without_append, hline, Nat.zero_add]
  rfl

theorem mem_ofText_of_mem_kept (h : p ∈ kept (SourceFile.ofText name text) removeComments) :
    p ∈ Piece.ofText text := by
  obtain ⟨x, hx, rfl⟩ := List.mem_map.mp h
  rw [← Piece.map_fst_placed (Lexer.programStart text) (Piece.ofText text)]
  exact List.mem_map_of_mem (List.mem_filter.mp hx).1

/-- The emitted text falls into the pieces that are left exactly if its first line is read as before,
no piece takes in the beginning of the next one, and each piece means what it meant where the pieces
left of it stand before it. -/
theorem ofText_erase_eq_kept_iff (hlegible : ∀ p ∈ Piece.ofText text, p.Legible) :
    Piece.ofText (erase (SourceFile.ofText name text) removeComments) =
        kept (SourceFile.ofText name text) removeComments ↔
      Lexer.interpreterLine (erase (SourceFile.ofText name text) removeComments).toList =
          Lexer.interpreterLine text.toList ∧
        Piece.Apart (kept (SourceFile.ofText name text) removeComments) ∧
        Context.AdmitsAll {} (kept (SourceFile.ofText name text) removeComments) := by
  have hkept : ∀ p ∈ kept (SourceFile.ofText name text) removeComments, p.Legible :=
    fun p hp => hlegible p (mem_ofText_of_mem_kept hp)
  have hprogram := Lexer.program_eq_iff (erase_eq_kept name text removeComments)
  constructor
  · intro hpieces
    have htext : Lexer.program (erase (SourceFile.ofText name text) removeComments) =
        (kept (SourceFile.ofText name text) removeComments).flatMap Piece.text := by
      rw [← hpieces]
      exact (Context.flatMap_text_pieces ..).symm
    rw [Piece.ofText, htext] at hpieces
    exact ⟨hprogram.mp htext, (Context.pieces_flatMap_eq_iff hkept {}).mp hpieces⟩
  · rintro ⟨hline, hreading⟩
    rw [Piece.ofText, hprogram.mpr hline]
    exact (Context.pieces_flatMap_eq_iff hkept {}).mpr hreading

end

end Erasure

end ModuleBuild
