import ModuleBuild.Outline.Statement
import Mathlib.Data.List.Basic

/-!
# How far statements reach

A recognised statement uses up tokens from the front of the list, up to a last one, and reaches from
its keyword to that token. A run of other code reaches over the tokens that are merged into it. So
every statement begins where a token begins and ends where a token ends.

Main statements: `moduleStatement?_eq_append`, by which a recognised statement ends with the last token
that it uses; and `reaches_of_mem_ofTokens`, which is about all statements of a file.
-/

namespace ModuleBuild

namespace Statement

/-- The word with which a declaration begins. -/
def keyword? (s : Statement) : Option String :=
  match s.kind with
  | .importFrom _ _ => some "import"
  | .exportFrom _ => some "export"
  | .other => none

/-- The specifier of a declaration. -/
def specifier? (s : Statement) : Option Specifier :=
  match s.kind with
  | .importFrom specifier _ => some specifier
  | .exportFrom specifier => some specifier
  | .other => none

/-- The statement is a declaration that begins with the token `keyword`, and its specifier is one of the
tokens behind it. -/
structure DeclaredBy (s : Statement) (keyword : Token) (ts : List Token) : Prop where
  keyword : ∃ word, s.keyword? = some word ∧ keyword.isWord word = true
  specifier : ∃ t ∈ ts, t.kind = .string ∧ s.specifier? = some ⟨t.text, t.span⟩

variable {t keyword last specifier : Token} {ts rest : List Token} {s : Statement}

/-! ## Recognised statements -/

theorem closingBrace?_eq_append {depth : Nat} (h : closingBrace? depth ts = some (t, rest)) :
    ∃ used, ts = used ++ t :: rest := by
  fun_induction closingBrace? depth ts with
  | case1 => simp at h
  | case3 =>
    cases h
    exact ⟨[], rfl⟩
  | case2 _ u us _ ih | case4 _ u us _ _ _ ih | case5 _ u us _ _ ih =>
    obtain ⟨used, rfl⟩ := ih h
    exact ⟨u :: used, rfl⟩

theorem attributes?_eq_append (h : attributes? ts = some (t, rest)) :
    ∃ used, ts = used ++ t :: rest := by
  unfold attributes? at h
  split at h
  · next word brace us =>
    split at h
    · obtain ⟨used, rfl⟩ := closingBrace?_eq_append h
      exact ⟨word :: brace :: used, rfl⟩
    · simp at h
  · simp at h

theorem finish_eq_append (h : finish specifier ts = (last, rest)) :
    ∃ used, specifier :: ts = used ++ last :: rest := by
  -- The specifier or the last token of the attributes, before a semicolon is looked for.
  obtain ⟨end₁, rest₁, used, hattributes, hused⟩ : ∃ end₁ rest₁ used,
      (attributes? ts).getD (specifier, ts) = (end₁, rest₁) ∧
        specifier :: ts = used ++ end₁ :: rest₁ := by
    cases hopt : attributes? ts with
    | none => exact ⟨specifier, ts, [], rfl, rfl⟩
    | some r =>
      obtain ⟨used, hts⟩ : ∃ used, ts = used ++ r.1 :: r.2 := attributes?_eq_append hopt
      exact ⟨r.1, r.2, specifier :: used, rfl, by rw [hts]; rfl⟩
  rw [finish, hattributes] at h
  dsimp only at h
  split at h
  · next u us =>
    split at h
    · cases h
      exact ⟨used ++ [end₁], by rw [hused]; simp⟩
    · cases h
      exact ⟨used, hused⟩
  · cases h
    exact ⟨used, hused⟩

theorem importSpecifier?_eq_append {before b : Option Token} {braces : Nat}
    (h : importSpecifier? before braces ts = some (b, t, rest)) :
    t.kind = .string ∧ ∃ used, ts = used ++ t :: rest := by
  induction ts generalizing before braces with
  | nil => simp [importSpecifier?] at h
  | cons u us ih =>
    have hcons : (t.kind = .string ∧ ∃ used, us = used ++ t :: rest) →
        t.kind = .string ∧ ∃ used, u :: us = used ++ t :: rest := by
      rintro ⟨hkind, used, rfl⟩
      exact ⟨hkind, u :: used, rfl⟩
    unfold importSpecifier? at h
    split at h
    · next hstring =>
      cases h
      have hstring : braces = 0 ∧ t.kind = .string := by simpa using hstring
      exact ⟨hstring.2, [], rfl⟩
    split at h
    · exact hcons (ih h)
    split at h
    · split at h
      · simp at h
      · exact hcons (ih h)
    split at h
    · simp at h
    · exact hcons (ih h)

/-- A declaration goes on behind its specifier up to the last token that `finish` finds. -/
theorem declaredBy_of_finish {word : String} {before us : List Token}
    (hword : s.keyword? = some word) (hkeyword : keyword.isWord word = true)
    (hstring : specifier.kind = .string)
    (hspecifier : s.specifier? = some ⟨specifier.text, specifier.span⟩)
    (hspan : s.span = keyword.span.merge last.span) (hfinish : finish specifier us = (last, rest))
    (hts : ts = before ++ specifier :: us) :
    ∃ used last, ts = used ++ last :: rest ∧ s.span = keyword.span.merge last.span ∧
      s.DeclaredBy keyword (used ++ [last]) := by
  obtain ⟨used, hused⟩ := finish_eq_append hfinish
  have hmem : specifier ∈ used ++ [last] := by
    cases used with
    | nil => simp [(List.cons.inj hused).1]
    | cons u used => simp [(List.cons.inj hused).1]
  refine ⟨before ++ used, last, by rw [hts, hused, List.append_assoc], hspan,
    ⟨word, hword, hkeyword⟩, specifier, ?_, hstring, hspecifier⟩
  rw [List.append_assoc]
  exact List.mem_append_right _ hmem

theorem importDeclaration?_eq_append (hkeyword : keyword.isWord "import" = true)
    (h : importDeclaration? keyword ts = some (s, rest)) :
    ∃ used last, ts = used ++ last :: rest ∧ s.span = keyword.span.merge last.span ∧
      s.DeclaredBy keyword (used ++ [last]) := by
  unfold importDeclaration? at h
  split at h
  · simp at h
  split at h
  · simp at h
  split at h
  · simp at h
  · next before specifier rest₁ hspecifier =>
    split at h
    · simp at h
    · obtain ⟨hstring, used, hused⟩ := importSpecifier?_eq_append hspecifier
      cases hfinish : finish specifier rest₁ with
      | mk last rest₂ =>
        rw [hfinish] at h
        cases h
        exact declaredBy_of_finish rfl hkeyword hstring rfl rfl hfinish hused

theorem exportClause?_eq_append (h : exportClause? ts = some rest) : ∃ used, ts = used ++ rest := by
  unfold exportClause? at h
  split at h
  · simp at h
  · next t ts =>
    split at h
    · cases h
      split
      · exact ⟨t :: ts.take 2, by rw [List.cons_append, List.take_append_drop]⟩
      · exact ⟨[t], rfl⟩
    · split at h
      · obtain ⟨⟨u, us⟩, hbrace, rfl⟩ := Option.map_eq_some_iff.mp h
        obtain ⟨used, rfl⟩ := closingBrace?_eq_append hbrace
        exact ⟨t :: (used ++ [u]), by simp⟩
      · simp at h

theorem exportDeclaration?_eq_append (hkeyword : keyword.isWord "export" = true)
    (h : exportDeclaration? keyword ts = some (s, rest)) :
    ∃ used last, ts = used ++ last :: rest ∧ s.span = keyword.span.merge last.span ∧
      s.DeclaredBy keyword (used ++ [last]) := by
  unfold exportDeclaration? at h
  split at h
  · next word specifier rest₁ hclause =>
    obtain ⟨used, hused⟩ : ∃ used, ts = used ++ word :: specifier :: rest₁ := by
      obtain ⟨used, hts⟩ := exportClause?_eq_append hclause
      split at hts
      · cases ts with
        | nil => exact ⟨used, hts⟩
        | cons u us => exact ⟨u :: used, by rw [← @List.tail_cons _ u us, hts]; rfl⟩
      · exact ⟨used, hts⟩
    split at h
    · next hfrom =>
      have hstring : specifier.kind = .string :=
        of_decide_eq_true (Bool.and_eq_true _ _ ▸ hfrom).2
      cases hfinish : finish specifier rest₁ with
      | mk last rest₂ =>
        rw [hfinish] at h
        cases h
        have hsplit : ts = (used ++ [word]) ++ specifier :: rest₁ := by
          rw [hused, List.append_assoc]
          rfl
        exact declaredBy_of_finish rfl hkeyword hstring rfl rfl hfinish hsplit
    · simp at h
  · simp at h

/-- A recognised statement uses up tokens and reaches from its keyword to the last of them. -/
theorem moduleStatement?_eq_append (h : moduleStatement? t ts = some (s, rest)) :
    ∃ used last, ts = used ++ last :: rest ∧ s.span = t.span.merge last.span ∧
      s.DeclaredBy t (used ++ [last]) := by
  unfold moduleStatement? at h
  split at h
  · next hkeyword => exact importDeclaration?_eq_append hkeyword h
  · split at h
    · next hkeyword => exact exportDeclaration?_eq_append hkeyword h
    · simp at h

end Statement

/-! ## All statements -/

/-- The span begins where one of the tokens begins and ends where one of them ends, and there is a
token in it. -/
structure Span.Reaches (ts : List Token) (s : Span) : Prop where
  start : ∃ t ∈ ts, s.start = t.span.start
  stop : ∃ t ∈ ts, s.stop = t.span.stop
  inside : ∃ t ∈ ts, s.start ≤ t.span.start ∧ t.span.stop ≤ s.stop

theorem Span.reaches_of_mem {ts : List Token} {t : Token} (h : t ∈ ts) : t.span.Reaches ts :=
  ⟨⟨t, h, rfl⟩, ⟨t, h, rfl⟩, ⟨t, h, Nat.le_refl _, Nat.le_refl _⟩⟩

theorem Span.Reaches.merge {ts : List Token} {s u : Span} (hs : s.Reaches ts) (hu : u.Reaches ts) :
    (s.merge u).Reaches ts := by
  refine ⟨?_, ?_, ?_⟩
  · rcases Nat.le_total s.start u.start with h | h
    · rw [Span.merge, Nat.min_eq_left h]
      exact hs.start
    · rw [Span.merge, Nat.min_eq_right h]
      exact hu.start
  · rcases Nat.le_total s.stop u.stop with h | h
    · rw [Span.merge, Nat.max_eq_right h]
      exact hu.stop
    · rw [Span.merge, Nat.max_eq_left h]
      exact hs.stop
  · obtain ⟨t, ht, hstart, hstop⟩ := hs.inside
    exact ⟨t, ht, Nat.le_trans (Nat.min_le_left ..) hstart, Nat.le_trans hstop (Nat.le_max_left ..)⟩

namespace Statement

/-- Where a statement is recognised, it is collected behind what is pending. -/
theorem collect_cons_of_eq_some {previous : Option Token} {depth : Nat} {pending : Option Span}
    {t : Token} {ts rest : List Token} {s : Statement}
    (h : (if depth = 0 ∧ !previous.any (·.isPunct '.') then moduleStatement? t ts else none) =
      some (s, rest)) :
    collect previous depth pending (t :: ts) = ofPending pending ++ s :: collect none 0 none rest := by
  rw [collect]
  split
  · next s' rest' heq =>
    rw [h] at heq
    obtain ⟨rfl, rfl⟩ := Prod.mk.inj (Option.some.inj heq)
    rfl
  · next heq =>
    rw [h] at heq
    cases heq

/-- Where none is recognised, the token is added to what is pending, and may end it. -/
theorem collect_cons_of_eq_none {previous : Option Token} {depth : Nat} {pending : Option Span}
    {t : Token} {ts : List Token}
    (h : (if depth = 0 ∧ !previous.any (·.isPunct '.') then moduleStatement? t ts else none) =
      none) :
    collect previous depth pending (t :: ts) =
      if depthBehind depth t = 0 ∧ (t.isPunct ';' || t.isPunct '}') then
        ofPending (some ((pending.map (·.merge t.span)).getD t.span)) ++
          collect (some t) (depthBehind depth t) none ts
      else
        collect (some t) (depthBehind depth t) (some ((pending.map (·.merge t.span)).getD t.span)) ts := by
  rw [collect]
  split
  · next heq =>
    rw [h] at heq
    cases heq
  · rfl

/-- The statements that are collected reach from token to token, if what is pending does. -/
theorem reaches_of_mem_collect {all ts : List Token} {previous : Option Token} {depth : Nat}
    {pending : Option Span} (hpending : ∀ p ∈ pending, p.Reaches all) (hts : ∀ t ∈ ts, t ∈ all)
    {s : Statement} (hs : s ∈ collect previous depth pending ts) : s.span.Reaches all := by
  have hrun : ∀ (p : Option Span), (∀ q ∈ p, q.Reaches all) → s ∈ ofPending p → s.span.Reaches all := by
    intro p hp hmem
    simp only [ofPending, List.mem_map, Option.mem_toList] at hmem
    obtain ⟨q, hq, rfl⟩ := hmem
    exact hp q hq
  induction hlength : ts.length using Nat.strongRecOn generalizing previous depth pending ts with
  | _ n ih =>
    subst hlength
    cases ts with
    | nil =>
      rw [collect] at hs
      exact hrun pending hpending hs
    | cons t ts =>
      have ht : t ∈ all := hts t List.mem_cons_self
      have hrest : ∀ u ∈ ts, u ∈ all := fun u hu => hts u (List.mem_cons_of_mem _ hu)
      cases hfound : (if depth = 0 ∧ !previous.any (·.isPunct '.') then moduleStatement? t ts
          else none) with
      | some r =>
        obtain ⟨s', rest⟩ := r
        have hstatement : moduleStatement? t ts = some (s', rest) := by
          split at hfound
          · exact hfound
          · cases hfound
        obtain ⟨used, last, rfl, hspan, -⟩ := moduleStatement?_eq_append hstatement
        rw [collect_cons_of_eq_some hfound, List.mem_append, List.mem_cons] at hs
        rcases hs with hs | rfl | hs
        · exact hrun pending hpending hs
        · rw [hspan]
          exact (Span.reaches_of_mem ht).merge (Span.reaches_of_mem (hrest last (by simp)))
        · refine ih rest.length (by simp; omega) (by simp) (fun u hu => hrest u ?_) hs rfl
          exact List.mem_append_right _ (List.mem_cons_of_mem _ hu)
      | none =>
        have hcovered : ∀ p ∈ some ((pending.map (·.merge t.span)).getD t.span), p.Reaches all := by
          rintro p hp
          obtain rfl := Option.some.inj hp
          cases pending with
          | none => exact Span.reaches_of_mem ht
          | some q => exact (hpending q rfl).merge (Span.reaches_of_mem ht)
        rw [collect_cons_of_eq_none hfound] at hs
        split at hs
        · rcases List.mem_append.mp hs with hs | hs
          · exact hrun _ hcovered hs
          · exact ih ts.length (by simp) (by simp) hrest hs rfl
        · exact ih ts.length (by simp) hcovered hrest hs rfl

/-- Every statement of a file begins where a token begins and ends where a token ends. -/
theorem reaches_of_mem_ofTokens {ts : List Token} {s : Statement} (h : s ∈ ofTokens ts) :
    s.span.Reaches ts :=
  reaches_of_mem_collect (by simp) (fun _ ht => ht) h

end Statement

end ModuleBuild
