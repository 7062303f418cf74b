import ModuleBuild.Engine.Lexical
import ModuleBuild.Proofs.Outline.Nesting
import ModuleBuild.Proofs.Token.Lossless

/-!
# The delimiters of a text

Besides brackets, a text has delimiters that its templates bring: a stretch that ends in `${` opens a
substitution, and the stretch behind it, which begins with the brace, closes it. A middle stretch does
both. The check of a file sees the brackets only.

Main statements: `ofDelimiters_eq_nil_iff`, by which the delimiter pass reports nothing exactly if the
brackets are well nested; and `diagnostics_eq_nil_iff`, by which a file passes the check without any
report exactly if it also has no error token.
-/

namespace ModuleBuild

open Delimiter

/-- What a pair of delimiters encloses. -/
inductive Enclosure where
  | bracket (b : Bracket)
  /-- The part of a template between `${` and the brace that closes it. -/
  | substitution
  deriving DecidableEq, Repr

/-- The delimiters that a token brings, in order. -/
def Token.delimiters (t : Token) : List (Delimiter Enclosure) :=
  if t.kind = .template then
    (if t.text.toList.head? = some '}' then [closing .substitution] else []) ++
      if ['{', '$'].isPrefixOf t.text.toList.reverse then [opening .substitution] else []
  else
    match t.opens?, t.closes? with
    | some b, _ => [opening (.bracket b)]
    | none, some b => [closing (.bracket b)]
    | none, none => []

namespace Delimiter

/-- The delimiters of several tokens. -/
def ofTokens (ts : List Token) : List (Delimiter Enclosure) := ts.flatMap Token.delimiters

/-- The brackets among delimiters. -/
def brackets (ds : List (Delimiter Enclosure)) : List (Delimiter Enclosure) :=
  ds.filter fun d => d.kind ≠ .substitution

/-- The delimiters other than braces. -/
def braceless (ds : List (Delimiter Enclosure)) : List (Delimiter Enclosure) :=
  ds.filter fun d => d.kind ≠ .bracket .curly

/-- The delimiters that templates bring. -/
def templateMarks (ds : List (Delimiter Enclosure)) : List (Delimiter Enclosure) :=
  ds.filter fun d => d.kind = .substitution

@[simp] theorem brackets_append (ds es : List (Delimiter Enclosure)) :
    brackets (ds ++ es) = brackets ds ++ brackets es := List.filter_append ..

@[simp] theorem braceless_append (ds es : List (Delimiter Enclosure)) :
    braceless (ds ++ es) = braceless ds ++ braceless es := List.filter_append ..

@[simp] theorem templateMarks_append (ds es : List (Delimiter Enclosure)) :
    templateMarks (ds ++ es) = templateMarks ds ++ templateMarks es := List.filter_append ..

end Delimiter

namespace Bracket

/-- A character opens a bracket, closes one, or does neither. -/
theorem cases_of_char (c : Char) :
    (∃ b : Bracket, c = b.opener) ∨ (∃ b : Bracket, c = b.closer) ∨
      (ofOpener? c = none ∧ ofCloser? c = none) := by
  by_cases ho : ∃ b : Bracket, c = b.opener
  · exact Or.inl ho
  by_cases hc : ∃ b : Bracket, c = b.closer
  · exact Or.inr (Or.inl hc)
  have hround : c ≠ '(' ∧ c ≠ ')' := ⟨fun h => ho ⟨round, h⟩, fun h => hc ⟨round, h⟩⟩
  have hsquare : c ≠ '[' ∧ c ≠ ']' := ⟨fun h => ho ⟨square, h⟩, fun h => hc ⟨square, h⟩⟩
  have hcurly : c ≠ '{' ∧ c ≠ '}' := ⟨fun h => ho ⟨curly, h⟩, fun h => hc ⟨curly, h⟩⟩
  refine Or.inr (Or.inr ⟨?_, ?_⟩)
  · rw [ofOpener?, if_neg hround.1, if_neg hsquare.1, if_neg hcurly.1]
  · rw [ofCloser?, if_neg hround.2, if_neg hsquare.2, if_neg hcurly.2]

end Bracket

namespace Token

variable {t : Token}

theorem kind_eq_punct_of_opens? {b : Bracket} (h : t.opens? = some b) : t.kind = .punct := by
  by_contra hk
  simp [opens?, punctChar?, hk] at h

theorem kind_eq_punct_of_closes? {b : Bracket} (h : t.closes? = some b) : t.kind = .punct := by
  by_contra hk
  simp [closes?, punctChar?, hk] at h

/-- No token opens one bracket and closes another. -/
theorem closes?_eq_none_of_opens? {b : Bracket} (h : t.opens? = some b) :
    t.closes? = none := by
  obtain ⟨c, hc, ho⟩ := Option.bind_eq_some_iff.mp h
  rw [closes?, hc, Option.bind_some]
  unfold Bracket.ofOpener? at ho
  split_ifs at ho with h₁ h₂ h₃
  · rw [h₁]
    rfl
  · rw [h₂]
    rfl
  · rw [h₃]
    rfl

theorem brackets_delimiters_of_opens? {b : Bracket} (h : t.opens? = some b) :
    brackets t.delimiters = [opening (.bracket b)] := by
  have hk := kind_eq_punct_of_opens? h
  simp [delimiters, hk, h, brackets]

theorem brackets_delimiters_of_closes? {b : Bracket} (ho : t.opens? = none)
    (h : t.closes? = some b) : brackets t.delimiters = [closing (.bracket b)] := by
  have hk := kind_eq_punct_of_closes? h
  simp [delimiters, hk, ho, h, brackets]

theorem brackets_delimiters_of_neither (ho : t.opens? = none) (hc : t.closes? = none) :
    brackets t.delimiters = [] := by
  by_cases hk : t.kind = .template
  · simp only [delimiters, if_pos hk]
    split_ifs <;> rfl
  · simp [delimiters, hk, ho, hc, brackets]

/-- Errors and the end of the text bring no delimiters. -/
theorem delimiters_eq_nil_of_not_isSignificant (h : t.isSignificant = false) :
    t.delimiters = [] := by
  have hk : t.kind = .error ∨ t.kind = .endOfText := by
    by_contra hcon
    simp_all [isSignificant]
  rcases hk with hk | hk <;> simp [delimiters, opens?, closes?, punctChar?, hk]

end Token

/-- Only the tokens of the program bring delimiters. -/
theorem Delimiter.ofTokens_significant (ts : List Token) :
    ofTokens (Outline.significant ts) = ofTokens ts := by
  induction ts with
  | nil => rfl
  | cons t ts ih =>
    cases ht : t.isSignificant with
    | true =>
      rw [Outline.significant, List.filter_cons_of_pos ht, ofTokens, List.flatMap_cons]
      exact congrArg _ ih
    | false =>
      rw [Outline.significant, List.filter_cons_of_neg (by simp [ht]), ofTokens, ofTokens,
        List.flatMap_cons, Token.delimiters_eq_nil_of_not_isSignificant ht]
      exact ih

/-! ## What the check of a file reports -/

namespace Problem

/-- A delimiter problem is about a token or about the end of the text. -/
theorem span_of_mem_ofDelimiters {atEnd : Span} {stack : List Bracket} {ts : List Token} {p : Problem}
    (h : p ∈ ofDelimiters atEnd stack ts) : p.span = atEnd ∨ ∃ t ∈ ts, p.span = t.span := by
  have hmissing : ∀ {span : Span} {bs : List Bracket}, p ∈ bs.map (missing span) → p.span = span := by
    intro span bs hp
    obtain ⟨b, -, rfl⟩ := List.mem_map.mp hp
    rfl
  fun_induction ofDelimiters atEnd stack ts with
  | case1 stack => exact Or.inl (hmissing h)
  | case2 stack t ts b _ ih | case3 stack t ts _ _ ih =>
    exact (ih h).imp_right fun ⟨u, hu, hspan⟩ => ⟨u, List.mem_cons_of_mem _ hu, hspan⟩
  | case4 stack t ts _ b _ _ ih =>
    rcases List.mem_cons.mp h with rfl | h
    · exact Or.inr ⟨t, List.mem_cons_self, rfl⟩
    · exact (ih h).imp_right fun ⟨u, hu, hspan⟩ => ⟨u, List.mem_cons_of_mem _ hu, hspan⟩
  | case5 stack t ts _ b _ _ outer _ ih =>
    rcases List.mem_append.mp h with h | h
    · exact Or.inr ⟨t, List.mem_cons_self, hmissing h⟩
    · exact (ih h).imp_right fun ⟨u, hu, hspan⟩ => ⟨u, List.mem_cons_of_mem _ hu, hspan⟩

/-- The delimiter problems of tokens that stand one behind the other are in the order of their places. -/
theorem pairwise_ofDelimiters {atEnd : Span} {stack : List Bracket} {ts : List Token}
    (hts : ts.Pairwise fun t u => t.span.start ≤ u.span.start)
    (hend : ∀ t ∈ ts, t.span.start ≤ atEnd.start) :
    (ofDelimiters atEnd stack ts).Pairwise fun p q => p.span.start ≤ q.span.start := by
  have hmissing : ∀ (span : Span) (bs : List Bracket),
      (bs.map (missing span)).Pairwise fun p q => p.span.start ≤ q.span.start := by
    intro span bs
    rw [List.pairwise_map]
    exact List.pairwise_of_forall fun _ _ => le_rfl
  induction ts generalizing stack with
  | nil => exact hmissing atEnd stack
  | cons t ts ih =>
    obtain ⟨hfirst, hts⟩ := List.pairwise_cons.mp hts
    have hrest := fun stack => @ih stack hts fun u hu => hend u (List.mem_cons_of_mem _ hu)
    have hlater : ∀ stack, ∀ q ∈ ofDelimiters atEnd stack ts, t.span.start ≤ q.span.start := by
      intro stack q hq
      rcases span_of_mem_ofDelimiters hq with hspan | ⟨u, hu, hspan⟩
      · rw [hspan]
        exact hend t List.mem_cons_self
      · rw [hspan]
        exact hfirst u hu
    unfold ofDelimiters
    split
    · exact hrest _
    · exact hrest _
    · split
      · exact List.pairwise_cons.mpr ⟨hlater _, hrest _⟩
      · refine List.pairwise_append.mpr ⟨hmissing .., hrest _, ?_⟩
        intro p hp q hq
        obtain ⟨b, -, rfl⟩ := List.mem_map.mp hp
        exact hlater _ q hq

/-- The delimiter pass reports nothing exactly if the brackets close what is open. -/
theorem ofDelimiters_eq_nil_iff (atEnd : Span) (stack : List Bracket) (ts : List Token) :
    ofDelimiters atEnd stack ts = [] ↔
      run? (stack.map Enclosure.bracket) (brackets (Delimiter.ofTokens ts)) = some [] := by
  induction ts generalizing stack with
  | nil => simp [ofDelimiters, Delimiter.ofTokens, brackets]
  | cons t ts ih =>
    have hsplit : brackets (Delimiter.ofTokens (t :: ts)) =
        brackets t.delimiters ++ brackets (Delimiter.ofTokens ts) := by
      rw [Delimiter.ofTokens, List.flatMap_cons, brackets_append]
      rfl
    rw [hsplit]
    cases ho : t.opens? with
    | some b =>
      rw [Token.brackets_delimiters_of_opens? ho]
      simp only [ofDelimiters, ho]
      exact ih (b :: stack)
    | none =>
      cases hc : t.closes? with
      | none =>
        rw [Token.brackets_delimiters_of_neither ho hc]
        simp only [ofDelimiters, ho, hc]
        exact ih stack
      | some b =>
        rw [Token.brackets_delimiters_of_closes? ho hc]
        simp only [ofDelimiters, ho, hc, List.singleton_append]
        cases stack with
        | nil => simp [run?]
        | cons top stack =>
          by_cases hb : top = b
          · subst hb
            simp only [List.dropWhile_cons, List.takeWhile_cons, bne_self_eq_false,
              Bool.false_eq_true, if_false, List.map_nil, List.nil_append, List.map_cons,
              run?_closing_self]
            exact ih stack
          · have hne : (top != b) = true := by simpa using hb
            have hrun : run? (List.map Enclosure.bracket (top :: stack))
                (closing (.bracket b) :: brackets (Delimiter.ofTokens ts)) = none := by
              simp [run?, hb]
            rw [hrun]
            simp only [List.dropWhile_cons, List.takeWhile_cons, hne, if_true]
            split <;> simp

end Problem

namespace Outline

/-- A file has no problem exactly if it has no error token and its brackets are well nested. -/
theorem problems_ofTokens_eq_nil_iff (ts : List Token) :
    (ofTokens ts).problems = [] ↔
      (∀ t ∈ ts, t.kind ≠ .error) ∧ WellNested (brackets (Delimiter.ofTokens ts)) := by
  have hperm := (List.mergeSort_perm (problemsOf ts) fun p q => p.span.start ≤ q.span.start)
  have hsort : (ofTokens ts).problems = [] ↔ problemsOf ts = [] := by
    rw [← List.length_eq_zero_iff, ← List.length_eq_zero_iff]
    exact iff_of_eq (congrArg (· = 0) hperm.length_eq)
  rw [hsort, problemsOf, List.append_eq_nil_iff, Problem.ofDelimiters_eq_nil_iff,
    Delimiter.ofTokens_significant, List.map_nil, ← wellNested_iff, List.filterMap_eq_nil_iff]
  refine and_congr_left fun _ => forall₂_congr fun t _ => ?_
  simp [Problem.ofError?]

end Outline

/-- The lexical engine reports nothing about a text exactly if it has no error token and its brackets
are well nested. -/
theorem LexicalProgram.diagnostics_eq_nil_iff (root : Path) (options : Options) (text : String) :
    (LexicalProgram.ofText root options text).1.diagnostics = [] ↔
      (∀ t ∈ (Lexed.ofText text).tokens, t.kind ≠ .error) ∧
        WellNested (brackets (Delimiter.ofTokens (Lexed.ofText text).tokens)) := by
  rw [← Outline.problems_ofTokens_eq_nil_iff]
  exact List.map_eq_nil_iff

end ModuleBuild
