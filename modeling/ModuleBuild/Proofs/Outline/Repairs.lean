import ModuleBuild.Proofs.Token.Places

/-!
# Repairing brackets

What the delimiter pass reports says how to put the brackets of a file in order: where it asks for a
closing bracket, insert one, and leave out each closing bracket that it does not expect. `repaired`
does this and looks at nothing but the reports, each of which tells its place by a span, so the tokens
must not share their spans.

Main statement: `wellNested_repaired`, by which the brackets are then well nested.
-/

namespace ModuleBuild

open Delimiter

namespace Problem

/-! ## Following the reports -/

/-- The bracket for whose closing mark the problem asks. -/
def requested? (p : Problem) : Option Bracket :=
  if p.code = 1005 then p.message.toList[1]?.bind Bracket.ofCloser? else none

/-- Whether the problem is that a token is not expected. -/
def rejects (p : Problem) : Bool := p.code = 1128

/-- The problems that are reported about one place. -/
def about (place : Span) (ps : List Problem) : List Problem := ps.filter (·.span = place)

/-- The closing brackets for which problems ask, in the order in which they are reported. -/
def insertions (ps : List Problem) : List (Delimiter Enclosure) :=
  (ps.filterMap requested?).map fun b => closing (.bracket b)

/-- The brackets of the tokens when the reports `ps` are followed: what is asked for at a closing bracket
is inserted before it, a closing bracket that is not expected is left out, and what is asked for at the
end is inserted there. -/
def repaired (ps : List Problem) (atEnd : Span) : List Token → List (Delimiter Enclosure)
  | [] => insertions (about atEnd ps)
  | t :: ts =>
    (if t.closes?.isSome then
      insertions (about t.span ps) ++
        if (about t.span ps).any rejects then [] else brackets t.delimiters
    else brackets t.delimiters) ++ repaired ps atEnd ts

/-! ## What is reported about a place -/

variable {here later : List Problem} {place atEnd : Span}

theorem about_eq_nil (h : ∀ p ∈ here, p.span ≠ place) : about place here = [] := by
  rw [about, List.filter_eq_nil_iff]
  intro p hp
  simpa using h p hp

theorem about_eq_self (h : ∀ p ∈ here, p.span = place) : about place here = here := by
  rw [about, List.filter_eq_self]
  intro p hp
  simpa using h p hp

theorem about_append (place : Span) (here later : List Problem) :
    about place (here ++ later) = about place here ++ about place later := List.filter_append ..

/-- Reports about other places change nothing. -/
theorem repaired_append {ts : List Token} (hend : ∀ p ∈ here, p.span ≠ atEnd)
    (hts : ∀ p ∈ here, ∀ t ∈ ts, p.span ≠ t.span) :
    repaired (here ++ later) atEnd ts = repaired later atEnd ts := by
  induction ts with
  | nil => rw [repaired, repaired, about_append, about_eq_nil hend, List.nil_append]
  | cons t ts ih =>
    have ht : about t.span (here ++ later) = about t.span later := by
      rw [about_append, about_eq_nil fun p hp => hts p hp t List.mem_cons_self, List.nil_append]
    rw [repaired, repaired, ht, ih fun p hp u hu => hts p hp u (List.mem_cons_of_mem _ hu)]

/-- A missing bracket is asked for by its own mark. -/
theorem requested?_missing (place : Span) (b : Bracket) : (missing place b).requested? = some b := by
  cases b <;> simp [missing, requested?, Bracket.closer, Bracket.ofCloser?]

theorem insertions_map_missing (place : Span) (bs : List Bracket) :
    insertions (bs.map (missing place)) = bs.map fun b => closing (.bracket b) := by
  have hrequested : (bs.map (missing place)).filterMap requested? = bs := by
    rw [List.filterMap_map]
    simp [requested?_missing]
  rw [insertions, hrequested]

theorem not_rejects_missing {bs : List Bracket} : (bs.map (missing place)).any rejects = false := by
  simp [rejects, missing]

/-- What is reported at a closing bracket decides what becomes of it. -/
theorem repaired_closer {t : Token} {ts : List Token} {b : Bracket} (ho : t.opens? = none)
    (hc : t.closes? = some b) (hfresh : t.span ∉ ts.map Token.span) (hend : atEnd ≠ t.span)
    (hhere : ∀ p ∈ here, p.span = t.span) (hlater : ∀ p ∈ later, p.span ≠ t.span) :
    repaired (here ++ later) atEnd (t :: ts) =
      insertions here ++ ((if here.any rejects then [] else [closing (.bracket b)]) ++
        repaired later atEnd ts) := by
  have habout : about t.span (here ++ later) = here := by
    rw [about_append, about_eq_self hhere, about_eq_nil hlater, List.append_nil]
  have hrest : repaired (here ++ later) atEnd ts = repaired later atEnd ts := by
    refine repaired_append (fun p hp hcon => ?_) (fun p hp u hu hcon => ?_)
    · exact hend (hcon.symm.trans (hhere p hp))
    · exact hfresh (List.mem_map.mpr ⟨u, hu, hcon.symm.trans (hhere p hp)⟩)
  rw [repaired, habout, hrest, hc, Option.isSome_some, if_pos rfl,
    Token.brackets_delimiters_of_closes? ho hc, List.append_assoc]

/-! ## The repaired brackets -/

/-- Closing what is open, the innermost first, leaves what is open outside. -/
theorem run?_map_closing (inner outer : List Bracket) (ds : List (Delimiter Enclosure)) :
    run? ((inner ++ outer).map Enclosure.bracket)
        (inner.map (fun b => closing (.bracket b)) ++ ds) =
      run? (outer.map Enclosure.bracket) ds := by
  induction inner with
  | nil => rfl
  | cons b inner ih =>
    rw [List.cons_append, List.map_cons, List.map_cons, List.cons_append, run?_closing_self, ih]

/-- If the brackets `stack` are open before the tokens, the repaired brackets close them all. -/
theorem run?_repaired {ts : List Token} (hspans : (ts.map Token.span).Nodup)
    (hend : atEnd ∉ ts.map Token.span) (stack : List Bracket) :
    run? (stack.map Enclosure.bracket) (repaired (ofDelimiters atEnd stack ts) atEnd ts) =
      some [] := by
  induction ts generalizing stack with
  | nil =>
    have hall : ∀ p ∈ stack.map (missing atEnd), p.span = atEnd := by simp [missing]
    have hclose := run?_map_closing stack [] []
    rw [List.append_nil, List.append_nil] at hclose
    rw [ofDelimiters, repaired, about_eq_self hall, insertions_map_missing, hclose]
    rfl
  | cons t ts ih =>
    rw [List.map_cons, List.nodup_cons] at hspans
    rw [List.map_cons, List.mem_cons, not_or] at hend
    obtain ⟨hfresh, hspans⟩ := hspans
    obtain ⟨hne, hend⟩ := hend
    have hlater : ∀ outer, ∀ p ∈ ofDelimiters atEnd outer ts, p.span ≠ t.span := by
      intro outer p hp hcon
      rcases span_of_mem_ofDelimiters hp with h | ⟨u, hu, h⟩
      · exact hne (h.symm.trans hcon)
      · exact hfresh (List.mem_map.mpr ⟨u, hu, h.symm.trans hcon⟩)
    cases ho : t.opens? with
    | some b =>
      simp only [ofDelimiters, ho, repaired, Token.closes?_eq_none_of_opens? ho,
        Token.brackets_delimiters_of_opens? ho]
      exact ih hspans hend (b :: stack)
    | none =>
      cases hc : t.closes? with
      | none =>
        simp only [ofDelimiters, ho, repaired, hc, Token.brackets_delimiters_of_neither ho hc]
        exact ih hspans hend stack
      | some b =>
        have hsplit : stack.takeWhile (· != b) ++ stack.dropWhile (· != b) = stack :=
          List.takeWhile_append_dropWhile
        simp only [ofDelimiters, ho, hc]
        split
        · -- No bracket of this kind is open: the closing one is left out.
          have hhere : ∀ p ∈ [stray t.span], p.span = t.span := by simp [stray]
          rw [← List.singleton_append, repaired_closer ho hc hfresh hne hhere (hlater stack)]
          exact ih hspans hend stack
        · next top outer hdrop =>
          -- What is open inside is closed in front of it, and then it closes the next one.
          have hhere : ∀ p ∈ (stack.takeWhile (· != b)).map (missing t.span), p.span = t.span := by
            simp [missing]
          have htop : top = b := by
            have hhead := List.head?_dropWhile_not (· != b) stack
            rw [hdrop] at hhead
            simpa using hhead
          rw [hdrop, htop] at hsplit
          rw [repaired_closer ho hc hfresh hne hhere (hlater outer), insertions_map_missing,
            not_rejects_missing]
          generalize stack.takeWhile (· != b) = inner at hsplit
          rw [← hsplit, run?_map_closing]
          exact (run?_closing_self _ _ _).trans (ih hspans hend outer)

/-- Following the reports about tokens that stand at different places puts their brackets in order, and
nothing is reported exactly if they are in order already. -/
theorem wellNested_repaired (atEnd : Span) (ts : List Token) (hspans : (ts.map Token.span).Nodup)
    (hend : atEnd ∉ ts.map Token.span) :
    WellNested (repaired (ofDelimiters atEnd [] ts) atEnd ts) ∧
      (ofDelimiters atEnd [] ts = [] ↔ WellNested (brackets (Delimiter.ofTokens ts))) := by
  refine ⟨wellNested_iff.mpr (run?_repaired hspans hend []), ?_⟩
  rw [ofDelimiters_eq_nil_iff, wellNested_iff]
  rfl

/-- A call with a square bracket that is not closed and a brace too many, and an open brace behind it. -/
theorem wellNested_repaired_call :
    ∃ ts : List Token, ts = Outline.significant (Lexed.ofText "f(a[0\x7d) \x7b").tokens ∧
      (ts.map Token.span).Nodup ∧ ⟨9, 9⟩ ∉ ts.map Token.span ∧
      ofDelimiters ⟨9, 9⟩ [] ts =
        [stray ⟨5, 6⟩, missing ⟨6, 7⟩ .square, missing ⟨9, 9⟩ .curly] ∧
      repaired (ofDelimiters ⟨9, 9⟩ [] ts) ⟨9, 9⟩ ts =
        [opening (.bracket .round), opening (.bracket .square), closing (.bracket .square),
          closing (.bracket .round), opening (.bracket .curly), closing (.bracket .curly)] ∧
      WellNested (repaired (ofDelimiters ⟨9, 9⟩ [] ts) ⟨9, 9⟩ ts) := by
  have hspans := Lexed.nodup_span_significant "f(a[0\x7d) \x7b"
  have hplace : Outline.endSpan (Lexed.ofText "f(a[0\x7d) \x7b").tokens = ⟨9, 9⟩ := by
    decide +kernel
  have hend := hplace ▸ Lexed.endSpan_not_mem "f(a[0\x7d) \x7b"
  exact ⟨_, rfl, hspans, hend, by decide +kernel, by decide +kernel,
    (wellNested_repaired ⟨9, 9⟩ _ hspans hend).1⟩

end Problem

end ModuleBuild
