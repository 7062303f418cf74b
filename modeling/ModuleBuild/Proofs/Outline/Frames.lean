import ModuleBuild.Proofs.Outline.Substitutions
import ModuleBuild.Proofs.Token.Rereading

/-!
# Text inside open delimiters

Behind the `${` of a template the lexer remembers more than at the beginning of a text: the
parentheses, braces and substitutions that are open around the place. Text whose brackets are well
nested never reaches down to them. It is read as at the beginning of a text, and what is open around it
stays open.

Main statements: `Context.within_step`, about one piece, and `Context.within_run`, about all pieces of
a text.
-/

namespace ModuleBuild

open Delimiter

namespace Context

/-- The context `k` with everything open around it that is open in `outer`. -/
def within (outer k : Context) : Context where
  slashOpensRegex := k.slashOpensRegex
  afterHeadWord := k.afterHeadWord
  heads := k.heads ++ outer.heads
  braceDepth := outer.braceDepth + k.braceDepth
  substitutions := k.substitutions.map (outer.braceDepth + ·) ++ outer.substitutions

/-- The context remembers as many parentheses and braces as are open. -/
structure Counts (k : Context) (stack : List Enclosure) : Prop where
  braceDepth : k.braceDepth = stack.count (.bracket .curly)
  heads : k.heads.length = stack.count (.bracket .round)

theorem counts_start : Counts {} [] := ⟨rfl, rfl⟩

/-- Where something is open in `k` itself, a brace means the same in both contexts. -/
theorem braceResumesTemplate_within {outer k : Context} (houter : outer.braceResumesTemplate = true)
    (hk : k.substitutions ≠ [] ∨ 0 < k.braceDepth) :
    (outer.within k).braceResumesTemplate = k.braceResumesTemplate := by
  unfold braceResumesTemplate at houter ⊢
  have houter : outer.substitutions.head? = some outer.braceDepth := by simpa using houter
  cases hs : k.substitutions with
  | nil =>
    have hpos : 0 < k.braceDepth := hk.resolve_left fun hne => hne hs
    simp only [within, hs, List.map_nil, List.nil_append, houter, List.head?_nil]
    simp
    omega
  | cons n ns => simp [within, hs]

theorem substitutions_ne_nil {k : Context} (h : k.braceResumesTemplate = true) :
    k.substitutions ≠ [] := by
  intro hnil
  simp [braceResumesTemplate, hnil] at h

/-! ## One piece -/

/-- A stretch of a template needs a brace that resumes a template exactly if it begins with one. -/
theorem admits_template_iff {k : Context} {text : List Char} :
    k.admits ⟨.template, text⟩ = true ↔
      (Piece.resumesTemplate ⟨.template, text⟩ = true → k.braceResumesTemplate = true) := by
  unfold admits Piece.fits Piece.resumesTemplate
  cases text with
  | nil => simp
  | cons c cs =>
    by_cases hc : c = '}'
    · simp [hc]
    · simp [hc]

/-- A slash and a closing brace apart, any punctuation character is admitted. -/
theorem admits_punct_iff {k : Context} {c : Char} :
    k.admits ⟨.punct, [c]⟩ = true ↔ (c = '/' → k.slashOpensRegex = false) ∧
      (c = '}' → k.braceResumesTemplate = false) := by
  unfold admits Piece.fits
  by_cases hslash : c = '/'
  · simp [hslash]
  · by_cases hbrace : c = '}'
    · simp [hbrace]
    · simp [hslash, hbrace]

section

variable {outer k : Context} {stack next : List Enclosure}

theorem within_step_template {text : List Char} (houter : outer.braceResumesTemplate = true)
    (hadmits : k.admits ⟨.template, text⟩ = true) :
    (outer.within k).admits ⟨.template, text⟩ = true ∧
      (outer.within k).after ⟨.template, text⟩ = outer.within (k.after ⟨.template, text⟩) := by
  rw [admits_template_iff] at hadmits ⊢
  cases hresume : Piece.resumesTemplate ⟨.template, text⟩ with
  | false =>
    refine ⟨by simp, ?_⟩
    cases hopen : Piece.opensSubstitution ⟨.template, text⟩ <;>
      simp [after, within, hresume, hopen]
  | true =>
    have hk := hadmits hresume
    have hne := substitutions_ne_nil hk
    refine ⟨fun _ => (braceResumesTemplate_within houter (Or.inl hne)).trans hk, ?_⟩
    have htail : ((k.substitutions.map (outer.braceDepth + ·)) ++ outer.substitutions).tail =
        k.substitutions.tail.map (outer.braceDepth + ·) ++ outer.substitutions := by
      rw [List.tail_append_of_ne_nil (by simpa using hne), List.map_tail]
    cases hopen : Piece.opensSubstitution ⟨.template, text⟩ <;>
      simp [after, within, hresume, hopen, htail]

theorem within_step_opener (b : Bracket) :
    (outer.within k).after ⟨.punct, [b.opener]⟩ = outer.within (k.after ⟨.punct, [b.opener]⟩) := by
  cases b <;> rfl

theorem within_step_closer {b : Bracket} (hcounts : k.Counts (.bracket b :: stack)) :
    (outer.within k).after ⟨.punct, [b.closer]⟩ = outer.within (k.after ⟨.punct, [b.closer]⟩) := by
  cases b with
  | round =>
    have hheads : k.heads ≠ [] := by
      intro hnil
      have hlength := hcounts.heads
      rw [hnil, List.count_cons_self] at hlength
      simp at hlength
    obtain ⟨head, heads, hcons⟩ := List.exists_cons_of_ne_nil hheads
    simp [after, afterPunct, within, Bracket.closer, hcons]
  | square => rfl
  | curly =>
    have hdepth := hcounts.braceDepth
    rw [List.count_cons_self] at hdepth
    have hsub : outer.braceDepth + k.braceDepth - 1 = outer.braceDepth + (k.braceDepth - 1) := by
      omega
    simp [after, afterPunct, within, Bracket.closer, hsub]

/-- A bracket that is opened is counted. -/
theorem Counts.opener (hcounts : k.Counts stack) (b : Bracket) :
    (k.after ⟨.punct, [b.opener]⟩).Counts (.bracket b :: stack) := by
  have hdepth := hcounts.braceDepth
  have hheads := hcounts.heads
  cases b <;> exact ⟨by simpa [after, afterPunct, Bracket.opener] using hdepth,
    by simpa [after, afterPunct, Bracket.opener] using hheads⟩

/-- A bracket that is closed is no longer counted. -/
theorem Counts.closer {b : Bracket} (hcounts : k.Counts (.bracket b :: stack)) :
    (k.after ⟨.punct, [b.closer]⟩).Counts stack := by
  have hdepth := hcounts.braceDepth
  have hheads := hcounts.heads
  cases b with
  | round =>
    rw [List.count_cons_self] at hheads
    refine ⟨by simpa [after, afterPunct, Bracket.closer] using hdepth, ?_⟩
    simp [after, afterPunct, Bracket.closer, hheads]
  | square => exact ⟨by simpa [after, afterPunct, Bracket.closer] using hdepth,
      by simpa [after, afterPunct, Bracket.closer] using hheads⟩
  | curly =>
    rw [List.count_cons_self] at hdepth
    refine ⟨?_, by simpa [after, afterPunct, Bracket.closer] using hheads⟩
    simp [after, afterPunct, Bracket.closer, hdepth]

theorem afterPunct_of_neither {c : Char} (ho : Bracket.ofOpener? c = none)
    (hc : Bracket.ofCloser? c = none) :
    k.afterPunct [c] = { k with
      slashOpensRegex := true
      afterHeadWord := false } := by
  unfold afterPunct
  split <;> simp_all [Bracket.ofOpener?, Bracket.ofCloser?]

theorem within_step_punct {c : Char} (houter : outer.braceResumesTemplate = true)
    (hcounts : k.Counts stack) (hadmits : k.admits ⟨.punct, [c]⟩ = true)
    (hrun : run? stack (brackets (Piece.delimiters ⟨.punct, [c]⟩)) = some next) :
    (outer.within k).admits ⟨.punct, [c]⟩ = true ∧
      (outer.within k).after ⟨.punct, [c]⟩ = outer.within (k.after ⟨.punct, [c]⟩) ∧
      (k.after ⟨.punct, [c]⟩).Counts next := by
  rw [admits_punct_iff] at hadmits ⊢
  rcases Bracket.cases_of_char c with ⟨b, rfl⟩ | ⟨b, rfl⟩ | ⟨ho, hc⟩
  · rw [Piece.delimiters_opener] at hrun
    obtain rfl : .bracket b :: stack = next := Option.some.inj hrun
    refine ⟨⟨hadmits.1, ?_⟩, within_step_opener b, hcounts.opener b⟩
    intro hbrace
    cases b <;> cases hbrace
  · rw [Piece.delimiters_closer] at hrun
    obtain ⟨rest, rfl, hrest⟩ := eq_cons_of_run?_closing hrun
    obtain rfl : rest = next := Option.some.inj hrest
    refine ⟨⟨hadmits.1, ?_⟩, within_step_closer hcounts, hcounts.closer⟩
    intro hbrace
    have hcurly : b = .curly := by
      cases b with
      | curly => rfl
      | round | square => cases hbrace
    have hpos : 0 < k.braceDepth := by
      rw [hcounts.braceDepth, hcurly, List.count_cons_self]
      exact Nat.succ_pos _
    exact (braceResumesTemplate_within houter (Or.inr hpos)).trans (hadmits.2 hbrace)
  · rw [Piece.delimiters_punct_eq_nil ho hc] at hrun
    obtain rfl : stack = next := Option.some.inj hrun
    have hafter : ∀ k : Context, k.after ⟨.punct, [c]⟩ = { k with
        slashOpensRegex := true
        afterHeadWord := false } := fun k => afterPunct_of_neither ho hc
    refine ⟨⟨hadmits.1, ?_⟩, ?_, ?_⟩
    · rintro rfl
      cases hc
    · rw [hafter, hafter]
      rfl
    · rw [hafter]
      exact ⟨hcounts.braceDepth, hcounts.heads⟩

/-- A piece that closes nothing that is open outside is admitted there too, and what is open outside
stays open. -/
theorem within_step {p : Piece} (houter : outer.braceResumesTemplate = true)
    (hcounts : k.Counts stack) (hp : p.Legible) (hadmits : k.admits p = true)
    (hrun : run? stack (brackets p.delimiters) = some next) :
    (outer.within k).admits p = true ∧ (outer.within k).after p = outer.within (k.after p) ∧
      (k.after p).Counts next := by
  obtain ⟨herror, a, b, c, cs, rest, hreads⟩ := hp
  cases hreads with
  | openComment | openString | openTemplate | openRegex | invalid => exact absurd rfl herror
  | blank | lineComment | blockComment | string | number | regex | name =>
    obtain rfl : stack = next := Option.some.inj hrun
    exact ⟨hadmits, rfl, hcounts.braceDepth, hcounts.heads⟩
  | @template c cs =>
    have hnone : brackets (Piece.delimiters ⟨.template, c :: (Reading.template cs).taken⟩) = [] := by
      rw [Piece.delimiters_template]
      split_ifs <;> rfl
    rw [hnone] at hrun
    obtain rfl : stack = next := Option.some.inj hrun
    obtain ⟨hadmits', hafter⟩ := within_step_template houter hadmits
    exact ⟨hadmits', hafter, hcounts.braceDepth, hcounts.heads⟩
  | punct => exact within_step_punct houter hcounts hadmits hrun

/-! ## All pieces of a text -/

/-- Pieces that close nothing that is open outside are admitted there too, and behind them it is still
open. -/
theorem within_run {ps : List Piece} (houter : outer.braceResumesTemplate = true)
    (hcounts : k.Counts stack) (hps : ∀ p ∈ ps, p.Legible) (hadmits : k.AdmitsAll ps)
    (hrun : run? stack (brackets (ps.flatMap Piece.delimiters)) = some next) :
    (outer.within k).AdmitsAll ps ∧ (outer.within k).afterAll ps = outer.within (k.afterAll ps) ∧
      (k.afterAll ps).Counts next := by
  induction ps generalizing k stack with
  | nil =>
    obtain rfl : stack = next := Option.some.inj hrun
    exact ⟨trivial, rfl, hcounts⟩
  | cons p ps ih =>
    rw [List.flatMap_cons, brackets_append] at hrun
    obtain ⟨between, hfirst, hrest⟩ := run?_append_eq_some hrun
    obtain ⟨hadmits', hafter, hcounts'⟩ :=
      within_step houter hcounts (hps p List.mem_cons_self) hadmits.1 hfirst
    obtain ⟨hall, hlast, hcounts''⟩ :=
      ih hcounts' (fun q hq => hps q (List.mem_cons_of_mem _ hq)) hadmits.2 hrest
    refine ⟨⟨hadmits', ?_⟩, ?_, hcounts''⟩
    · rw [hafter]
      exact hall
    · rw [afterAll_cons, hafter]
      exact hlast

end

end Context

end ModuleBuild
