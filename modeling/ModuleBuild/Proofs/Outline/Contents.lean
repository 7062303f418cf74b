import ModuleBuild.Outline
import ModuleBuild.Proofs.Outline.Extents
import ModuleBuild.Proofs.Token.Contents

/-!
# What an outline says

The scanner and the delimiter pass look at the kinds and the texts of tokens and never at their places,
which they only hand on. So tokens may be moved: whatever is found in them is found again, at other
places. Nor do they look at the texts of templates. This is shown for each function of the scanner by a
map of the tokens that leaves kinds and all other texts alone.

Main statements: `Statement.map_content_ofTokens` and `Problem.map_content_ofDelimiters`, by which tokens
that say the same have statements and delimiter problems that say the same; and `Outline.problems_map`,
about problems and their places.
-/

namespace ModuleBuild

/-- What a statement says, wherever it and its specifier stand. -/
def Statement.content (s : Statement) : Statement.Kind :=
  match s.kind with
  | .importFrom specifier typeOnly => .importFrom ⟨specifier.raw, {}⟩ typeOnly
  | .exportFrom specifier => .exportFrom ⟨specifier.raw, {}⟩
  | .other => .other

/-- What a problem says, wherever it is. -/
def Problem.content (p : Problem) : Nat × String := (p.code, p.message)

/-- The problem in the place to which `move` takes its own. -/
def Problem.moved (move : Span → Span) (p : Problem) : Problem := { p with span := move p.span }

/-- The map leaves the kinds of tokens alone, and all texts but those of templates. -/
structure Token.Restates (f : Token → Token) : Prop where
  kind : ∀ t, (f t).kind = t.kind
  text : ∀ t, t.kind ≠ .template → (f t).text = t.text

section

variable {f : Token → Token} (hf : Token.Restates f)

include hf

namespace Token

theorem punctChar?_map (t : Token) : (f t).punctChar? = t.punctChar? := by
  rw [punctChar?, punctChar?, hf.kind]
  split_ifs with hkind
  · rw [hf.text t (by simp [hkind])]
  · rfl

theorem isWord_map (t : Token) (word : String) : (f t).isWord word = t.isWord word := by
  rw [isWord, isWord, hf.kind]
  by_cases hkind : t.kind = .identifier
  · rw [hf.text t (by simp [hkind])]
  · simp [hkind]

theorem isPunct_map (t : Token) (c : Char) : (f t).isPunct c = t.isPunct c := by
  rw [Bool.eq_iff_iff, isPunct_iff, isPunct_iff, punctChar?_map hf]

theorem isSignificant_map (t : Token) : (f t).isSignificant = t.isSignificant := by
  rw [isSignificant, isSignificant, hf.kind]

end Token

namespace Statement

open Token

/-! ## Clauses -/

theorem closingBrace?_map (depth : Nat) (ts : List Token) :
    closingBrace? depth (ts.map f) = (closingBrace? depth ts).map (Prod.map f (List.map f)) := by
  induction ts generalizing depth with
  | nil => rfl
  | cons t ts ih =>
    rw [List.map_cons, closingBrace?, closingBrace?, isPunct_map hf, isPunct_map hf]
    split_ifs
    · exact ih _
    · rfl
    · exact ih _
    · exact ih _

theorem attributes?_map (ts : List Token) :
    attributes? (ts.map f) = (attributes? ts).map (Prod.map f (List.map f)) := by
  match ts with
  | [] | [_] => rfl
  | word :: brace :: ts =>
    simp only [List.map_cons, attributes?, isWord_map hf, isPunct_map hf]
    split_ifs
    · exact closingBrace?_map hf 1 ts
    · rfl

theorem finish_map (specifier : Token) (ts : List Token) :
    finish (f specifier) (ts.map f) = Prod.map f (List.map f) (finish specifier ts) := by
  have hattributes : (attributes? (ts.map f)).getD (f specifier, ts.map f) =
      Prod.map f (List.map f) ((attributes? ts).getD (specifier, ts)) := by
    rw [attributes?_map hf]
    cases attributes? ts <;> rfl
  rw [finish, finish, hattributes]
  generalize (attributes? ts).getD (specifier, ts) = r
  obtain ⟨last, rest⟩ := r
  cases rest with
  | nil => rfl
  | cons t rest =>
    simp only [Prod.map_apply, List.map_cons, isPunct_map hf]
    split_ifs <;> rfl

theorem importSpecifier?_map (before : Option Token) (braces : Nat) (ts : List Token) :
    importSpecifier? (before.map f) braces (ts.map f) =
      (importSpecifier? before braces ts).map
        (Prod.map (Option.map f) (Prod.map f (List.map f))) := by
  induction ts generalizing before braces with
  | nil => rfl
  | cons t ts ih =>
    have hnext := fun braces => ih (some t) braces
    rw [List.map_cons, importSpecifier?, importSpecifier?, hf.kind]
    simp only [isPunct_map hf, isWord_map hf]
    split_ifs
    · rfl
    · exact hnext _
    · rfl
    · exact hnext _
    · rfl
    · exact hnext _

theorem hasTypeModifier_map (ts : List Token) : hasTypeModifier (ts.map f) = hasTypeModifier ts := by
  match ts with
  | [] | [_] => rfl
  | first :: second :: ts =>
    simp only [List.map_cons, hasTypeModifier, isWord_map hf, isPunct_map hf, hf.kind]

theorem isAssignment_map (ts : List Token) :
    isAssignment (dropTypeModifier (ts.map f)) = isAssignment (dropTypeModifier ts) := by
  have hdrop : dropTypeModifier (ts.map f) = (dropTypeModifier ts).map f := by
    rw [dropTypeModifier, dropTypeModifier, hasTypeModifier_map hf]
    split_ifs
    · exact List.map_tail.symm
    · rfl
  rw [hdrop]
  match dropTypeModifier ts with
  | [] | [_] => rfl
  | name :: equals :: ts =>
    simp only [List.map_cons, isAssignment, hf.kind, isPunct_map hf]

/-! ## Import declarations and re-exports -/

theorem importDeclaration?_map (keyword : Token) (ts : List Token) :
    (importDeclaration? (f keyword) (ts.map f)).map (Prod.map content id) =
      (importDeclaration? keyword ts).map (Prod.map content (List.map f)) := by
  have hhead : (ts.map f).head?.any (fun t => t.isPunct '(' || t.isPunct '.') =
      ts.head?.any fun t => t.isPunct '(' || t.isPunct '.' := by
    cases ts with
    | nil => rfl
    | cons t ts => simp only [List.map_cons, List.head?_cons, Option.any_some, isPunct_map hf]
  have hspecifier := importSpecifier?_map hf none 0 ts
  rw [importDeclaration?, importDeclaration?, hhead, isAssignment_map hf, hasTypeModifier_map hf]
  rw [Option.map_none] at hspecifier
  rw [hspecifier]
  split_ifs
  · rfl
  · rfl
  · cases hfound : importSpecifier? none 0 ts with
    | none => rfl
    | some r =>
      obtain ⟨before, specifier, rest⟩ := r
      have hstring : specifier.kind ≠ .template := by
        rw [(importSpecifier?_eq_append hfound).1]
        decide
      have hfrom : (before.map f).any (fun t => !t.isWord "from") =
          before.any fun t => !t.isWord "from" := by
        cases before with
        | none => rfl
        | some t => simp only [Option.map_some, Option.any_some, isWord_map hf]
      simp only [Option.map_some, Prod.map_apply, hfrom, finish_map hf, hf.text _ hstring]
      split_ifs <;> rfl

theorem exportClause?_map (ts : List Token) :
    exportClause? (ts.map f) = (exportClause? ts).map (List.map f) := by
  cases ts with
  | nil => rfl
  | cons t ts =>
    have hhead : (ts.map f).head?.any (·.isWord "as") = ts.head?.any (·.isWord "as") := by
      cases ts with
      | nil => rfl
      | cons u ts => simp only [List.map_cons, List.head?_cons, Option.any_some, isWord_map hf]
    simp only [List.map_cons, exportClause?, isPunct_map hf, hhead, closingBrace?_map hf]
    split_ifs
    · rw [Option.map_some, List.map_drop]
    · rfl
    · cases closingBrace? 1 ts <;> rfl
    · rfl

theorem exportDeclaration?_map (keyword : Token) (ts : List Token) :
    (exportDeclaration? (f keyword) (ts.map f)).map (Prod.map content id) =
      (exportDeclaration? keyword ts).map (Prod.map content (List.map f)) := by
  have hmodifier : (if (ts.map f).head?.any (·.isWord "type") then (ts.map f).tail else ts.map f) =
      (if ts.head?.any (·.isWord "type") then ts.tail else ts).map f := by
    cases ts with
    | nil => rfl
    | cons t ts =>
      by_cases ht : t.isWord "type" = true
      · simp [isWord_map hf, ht]
      · simp [isWord_map hf, ht]
  rw [exportDeclaration?, exportDeclaration?, hmodifier, exportClause?_map hf]
  generalize exportClause? (if ts.head?.any (·.isWord "type") then ts.tail else ts) = clause
  match clause with
  | none | some [] | some [_] => rfl
  | some (word :: specifier :: rest) =>
    simp only [Option.map_some, List.map_cons, isWord_map hf, hf.kind, finish_map hf]
    split_ifs with hfrom
    · have hstring : specifier.kind = .string := (by simpa using hfrom : _ ∧ _).2
      rw [hf.text _ (by simp [hstring])]
      rfl
    · rfl

theorem moduleStatement?_map (t : Token) (ts : List Token) :
    (moduleStatement? (f t) (ts.map f)).map (Prod.map content id) =
      (moduleStatement? t ts).map (Prod.map content (List.map f)) := by
  rw [moduleStatement?, moduleStatement?, isWord_map hf, isWord_map hf]
  split_ifs
  · exact importDeclaration?_map hf t ts
  · exact exportDeclaration?_map hf t ts
  · rfl

/-! ## All statements -/

theorem depthBehind_map (depth : Nat) (t : Token) : depthBehind depth (f t) = depthBehind depth t := by
  rw [depthBehind, depthBehind, punctChar?_map hf]

omit hf in
/-- A run says nothing about the code that it covers. -/
theorem map_content_ofPending {pending pending' : Option Span}
    (h : pending'.isSome = pending.isSome) :
    (ofPending pending').map content = (ofPending pending).map content := by
  cases pending <;> cases pending' <;> simp_all [ofPending, content]

/-- The statements of moved tokens say what the statements of the tokens say. -/
theorem map_content_collect (previous : Option Token) (depth : Nat) (pending pending' : Option Span)
    (hpending : pending'.isSome = pending.isSome) (ts : List Token) :
    (collect (previous.map f) depth pending' (ts.map f)).map content =
      (collect previous depth pending ts).map content := by
  induction hlength : ts.length using Nat.strongRecOn
    generalizing previous depth pending pending' ts with
  | _ n ih =>
    subst hlength
    cases ts with
    | nil =>
      rw [List.map_nil, collect, collect]
      exact map_content_ofPending hpending
    | cons t ts =>
      have hpoint : (previous.map f).any (·.isPunct '.') = previous.any (·.isPunct '.') := by
        cases previous with
        | none => rfl
        | some u => simp only [Option.map_some, Option.any_some, isPunct_map hf]
      have hmap : (if depth = 0 ∧ !(previous.map f).any (·.isPunct '.') then
          moduleStatement? (f t) (ts.map f) else none).map (Prod.map content id) =
          (if depth = 0 ∧ !previous.any (·.isPunct '.') then moduleStatement? t ts else none).map
            (Prod.map content (List.map f)) := by
        rw [hpoint]
        split_ifs
        · exact moduleStatement?_map hf t ts
        · rfl
      cases hfound : (if depth = 0 ∧ !previous.any (·.isPunct '.') then moduleStatement? t ts
          else none) with
      | some r =>
        obtain ⟨s, rest⟩ := r
        have hlength := moduleStatement?_length (Option.ite_none_right_eq_some.mp hfound).2
        rw [hfound, Option.map_some] at hmap
        obtain ⟨⟨s', rest'⟩, hfound', hsame⟩ := Option.map_eq_some_iff.mp hmap
        obtain ⟨hcontent, rfl⟩ : s'.content = s.content ∧ rest' = rest.map f := Prod.mk.inj hsame
        have hrest := ih rest.length (by simp; omega) none 0 none none rfl rest rfl
        rw [List.map_cons, collect_cons_of_eq_some hfound', collect_cons_of_eq_some hfound,
          List.map_append, List.map_append, List.map_cons, List.map_cons, hcontent,
          map_content_ofPending hpending, ← hrest]
        rfl
      | none =>
        rw [hfound, Option.map_none, Option.map_eq_none_iff] at hmap
        have hnext := fun (pending pending' : Option Span) (h : pending'.isSome = pending.isSome) =>
          ih ts.length (by simp) (some t) (depthBehind depth t) pending pending' h ts rfl
        rw [List.map_cons, collect_cons_of_eq_none hmap, collect_cons_of_eq_none hfound,
          isPunct_map hf, isPunct_map hf, depthBehind_map hf]
        split_ifs
        · rw [List.map_append, List.map_append]
          exact congrArg₂ _ (map_content_ofPending rfl) (hnext _ _ rfl)
        · exact hnext _ _ rfl

theorem map_content_ofTokens_map (ts : List Token) :
    (ofTokens (ts.map f)).map content = (ofTokens ts).map content :=
  map_content_collect hf none 0 none none rfl ts

end Statement

/-! ## Problems -/

namespace Problem

open Token

theorem opens?_map (t : Token) : (f t).opens? = t.opens? := by
  rw [opens?, opens?, punctChar?_map hf]

theorem closes?_map (t : Token) : (f t).closes? = t.closes? := by
  rw [closes?, closes?, punctChar?_map hf]

/-- The delimiter problems of moved tokens say what those of the tokens say. -/
theorem map_content_ofDelimiters_map (atEnd atEnd' : Span) (stack : List Bracket) (ts : List Token) :
    (ofDelimiters atEnd' stack (ts.map f)).map content =
      (ofDelimiters atEnd stack ts).map content := by
  have hmissing : ∀ (span span' : Span) (bs : List Bracket),
      (bs.map (missing span')).map content = (bs.map (missing span)).map content := by
    intro span span' bs
    rw [List.map_map, List.map_map]
    rfl
  induction ts generalizing stack with
  | nil => exact hmissing ..
  | cons t ts ih =>
    simp only [List.map_cons, ofDelimiters, opens?_map hf, closes?_map hf]
    split
    · exact ih _
    · exact ih _
    · split
      · exact congrArg (List.cons _) (ih _)
      · rw [List.map_append, List.map_append, ih]
        exact congrArg (· ++ _) (hmissing ..)

variable {move : Span → Span} (hmove : ∀ t, (f t).span = move t.span)

include hmove

/-- The delimiter problems move with the tokens. -/
theorem ofDelimiters_map (atEnd : Span) (stack : List Bracket) (ts : List Token) :
    ofDelimiters (move atEnd) stack (ts.map f) = (ofDelimiters atEnd stack ts).map (moved move) := by
  induction ts generalizing stack with
  | nil =>
    rw [List.map_nil, ofDelimiters, ofDelimiters, List.map_map]
    rfl
  | cons t ts ih =>
    simp only [List.map_cons, ofDelimiters, opens?_map hf, closes?_map hf, hmove]
    split
    · exact ih _
    · exact ih _
    · split
      · exact congrArg (List.cons _) (ih _)
      · rw [List.map_append, List.map_map, ih]
        rfl

theorem ofError?_map (hcode : ∀ t, (f t).code = t.code) (t : Token) :
    ofError? (f t) = (ofError? t).map (moved move) := by
  rw [ofError?, ofError?, hf.kind, hmove, hcode]
  split_ifs with hkind
  · rw [hf.text t (by simp [hkind])]
    rfl
  · rfl

end Problem

namespace Outline

variable {move : Span → Span} (hmove : ∀ t, (f t).span = move t.span)
  (hcode : ∀ t, (f t).code = t.code)

theorem significant_map (ts : List Token) : significant (ts.map f) = (significant ts).map f := by
  rw [significant, significant, List.filter_map]
  congr 2
  funext t
  exact Token.isSignificant_map hf t

include hmove hcode

theorem problemsOf_map {ts : List Token} (hts : ts ≠ []) :
    problemsOf (ts.map f) = (problemsOf ts).map (Problem.moved move) := by
  have hend : endSpan (ts.map f) = move (endSpan ts) := by
    rw [endSpan, endSpan, List.getLast?_map, List.getLast?_eq_some_getLast hts]
    exact hmove _
  have herrors : (ts.map f).filterMap Problem.ofError? =
      (ts.filterMap Problem.ofError?).map (Problem.moved move) := by
    rw [List.filterMap_map, List.map_filterMap]
    exact List.filterMap_congr fun t _ => Problem.ofError?_map hf hmove hcode t
  rw [problemsOf, problemsOf, hend, herrors, significant_map hf,
    Problem.ofDelimiters_map hf hmove, List.map_append]

/-- The problems move with the tokens, if these keep their order. -/
theorem problems_map {ts : List Token} (hts : ts ≠ [])
    (horder : ∀ p ∈ problemsOf ts, ∀ q ∈ problemsOf ts,
      (p.span.start ≤ q.span.start ↔ (move p.span).start ≤ (move q.span).start)) :
    (ofTokens (ts.map f)).problems = (ofTokens ts).problems.map (Problem.moved move) := by
  rw [ofTokens, ofTokens, problemsOf_map hf hmove hcode hts]
  symm
  apply List.map_mergeSort
  intro p hp q hq
  exact decide_eq_decide.mpr (horder p hp q hq)

end Outline

end

/-! ## Tokens that say the same -/

/-- The token that says the same and stands nowhere. -/
def Token.bare (t : Token) : Token := { kind := t.kind, span := {}, text := t.text }

theorem Token.restates_bare : Token.Restates Token.bare := ⟨fun _ => rfl, fun _ _ => rfl⟩

section

variable {ts us : List Token} (h : ts.map Token.content = us.map Token.content)

include h

theorem Token.map_bare_eq : ts.map Token.bare = us.map Token.bare := by
  have hbare : Token.bare = (fun x => { kind := x.1, span := {}, text := x.2 }) ∘ Token.content := rfl
  rw [hbare, ← List.map_map, ← List.map_map, h]

theorem Token.map_content_significant :
    (Outline.significant ts).map Token.content = (Outline.significant us).map Token.content := by
  have hsignificant : Token.isSignificant = (fun x => x.1 != .error && x.1 != .endOfText) ∘
      Token.content := rfl
  unfold Outline.significant
  rw [hsignificant, ← List.filter_map, ← List.filter_map, h]

/-- Tokens that say the same have statements that say the same. -/
theorem Statement.map_content_ofTokens :
    (Statement.ofTokens ts).map Statement.content = (Statement.ofTokens us).map Statement.content := by
  rw [← Statement.map_content_ofTokens_map Token.restates_bare ts, Token.map_bare_eq h,
    Statement.map_content_ofTokens_map Token.restates_bare]

/-- Tokens that say the same have delimiter problems that say the same. -/
theorem Problem.map_content_ofDelimiters (atEnd atEnd' : Span) (stack : List Bracket) :
    (Problem.ofDelimiters atEnd stack ts).map Problem.content =
      (Problem.ofDelimiters atEnd' stack us).map Problem.content := by
  rw [← Problem.map_content_ofDelimiters_map Token.restates_bare atEnd {} stack ts, Token.map_bare_eq h,
    Problem.map_content_ofDelimiters_map Token.restates_bare atEnd' {} stack us]

end

end ModuleBuild
