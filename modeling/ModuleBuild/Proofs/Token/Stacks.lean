import ModuleBuild.Proofs.Outline.Frames
import ModuleBuild.Proofs.Token.Lossless

/-!
# Open braces and open substitutions

The lexer counts the open braces, and for each open substitution it keeps how many were open where the
substitution began. A closing brace goes on with the template exactly if these two numbers are equal, so
it matters that they never pass each other: the numbers that are kept never decrease towards the inside,
and the number of open braces is never below them. A stray closing brace changes nothing, and inside a
substitution there is none.

Each token that the lexer returns keeps this up, errors included. The number of open substitutions is that
of the stretches of templates that open one less that of the stretches that close one, until a template
is ended by the text.

Main statements: `Context.Consistent.read`, about one piece; `Lexer.next_cases`, by which the next token is
one piece; and `Lexer.Reaches.stacks_consistent`, about every place that the lexer reaches.
-/

namespace ModuleBuild

/-! ## One piece -/

/-- The numbers kept for the open substitutions, the innermost first, do not increase, and none is above
the number of open braces. -/
structure Context.Consistent (k : Context) : Prop where
  ordered : k.substitutions.Pairwise (· ≥ ·)
  bounded : ∀ d ∈ k.substitutions, d ≤ k.braceDepth

namespace Context

variable {k : Context}

theorem consistent_start : Consistent {} where
  ordered := List.Pairwise.nil
  bounded d hd := by simp at hd

/-- Where a closing brace does not go on with a template, more braces are open than at the beginning of
any open substitution. -/
theorem Consistent.lt_braceDepth (h : k.Consistent) (hbrace : k.braceResumesTemplate = false) :
    ∀ d ∈ k.substitutions, d < k.braceDepth := by
  obtain ⟨hordered, hbounded⟩ := h
  rw [braceResumesTemplate] at hbrace
  cases hs : k.substitutions with
  | nil => simp
  | cons e es =>
    rw [hs] at hordered hbounded hbrace
    -- The innermost number is not the depth, or the brace would go on with the template, and the
    -- others are not above the innermost.
    have hne : e ≠ k.braceDepth := by simpa using hbrace
    have hlt : e < k.braceDepth := by
      have hle := hbounded e List.mem_cons_self
      omega
    intro d hd
    rcases List.mem_cons.mp hd with rfl | hd
    · exact hlt
    · exact (List.rel_of_pairwise_cons hordered hd).trans_lt hlt

theorem Consistent.punct (h : k.Consistent) {c : Char}
    (hbrace : c = '}' → k.braceResumesTemplate = false) : (k.after ⟨.punct, [c]⟩).Consistent := by
  have hsubstitutions : (k.after ⟨.punct, [c]⟩).substitutions = k.substitutions :=
    afterPunct_substitutions ..
  refine ⟨by rw [hsubstitutions]; exact h.ordered, ?_⟩
  rw [hsubstitutions]
  intro d hd
  have hle := h.bounded d hd
  by_cases hopen : c = '{'
  · subst hopen
    exact hle.trans (Nat.le_succ _)
  · by_cases hclose : c = '}'
    · subst hclose
      exact Nat.le_sub_one_of_lt (h.lt_braceDepth (hbrace rfl) d hd)
    · show d ≤ (k.afterPunct [c]).braceDepth
      rwa [afterPunct_braceDepth hopen hclose]

/-- A brace that closes a block inside a substitution closes one that was opened there. -/
theorem Consistent.closingBrace (h : k.Consistent) (hopen : k.substitutions ≠ [])
    (hbrace : k.braceResumesTemplate = false) :
    (k.after ⟨.punct, ['}']⟩).braceDepth + 1 = k.braceDepth ∧
      ∀ d ∈ k.substitutions, d ≤ (k.after ⟨.punct, ['}']⟩).braceDepth := by
  have hlt := h.lt_braceDepth hbrace
  have hdepth : (k.after ⟨.punct, ['}']⟩).braceDepth = k.braceDepth - 1 := rfl
  obtain ⟨d, hd⟩ := List.exists_mem_of_ne_nil _ hopen
  have hpos := hlt d hd
  refine ⟨by omega, fun e he => ?_⟩
  rw [hdepth]
  exact Nat.le_sub_one_of_lt (hlt e he)

/-- What is left of the numbers when the innermost substitution is closed, or none is. -/
def left (k : Context) (resumes : Bool) : List Nat :=
  if resumes then k.substitutions.tail else k.substitutions

theorem Consistent.left (h : k.Consistent) (resumes : Bool) :
    Consistent { k with substitutions := k.left resumes } := by
  cases resumes with
  | false => exact h
  | true => exact ⟨h.ordered.tail, fun d hd => h.bounded d (List.mem_of_mem_tail hd)⟩

theorem length_left_add {resumes : Bool} (h : resumes = true → k.substitutions ≠ []) :
    (k.left resumes).length + resumes.toNat = k.substitutions.length := by
  cases resumes with
  | false => rfl
  | true =>
    obtain ⟨d, ds, hs⟩ := List.exists_cons_of_ne_nil (h rfl)
    simp [Context.left, hs]

theorem substitutions_after_template (k : Context) (text : List Char) :
    (k.after ⟨.template, text⟩).substitutions =
      if Piece.opensSubstitution ⟨.template, text⟩
      then k.braceDepth :: k.left (Piece.resumesTemplate ⟨.template, text⟩)
      else k.left (Piece.resumesTemplate ⟨.template, text⟩) :=
  rfl

theorem Consistent.template (h : k.Consistent) (text : List Char) :
    (k.after ⟨.template, text⟩).Consistent := by
  obtain ⟨hordered, hbounded⟩ := h.left (Piece.resumesTemplate ⟨.template, text⟩)
  refine ⟨?_, ?_⟩ <;> rw [substitutions_after_template]
  · split
    · exact List.Pairwise.cons hbounded hordered
    · exact hordered
  · show ∀ d ∈ _, d ≤ k.braceDepth
    split
    · exact List.forall_mem_cons.mpr ⟨le_rfl, hbounded⟩
    · exact hbounded

/-- What is read at a place keeps the numbers in order. -/
theorem Consistent.read (h : k.Consistent) (c : Char) (cs : List Char) :
    (k.after (k.read c cs).1).Consistent := by
  have hreads : Piece.Reads k.slashOpensRegex k.braceResumesTemplate c cs (k.read c cs).1
    (k.read c cs).2 := Piece.reads_read ..
  generalize (k.read c cs).1 = p, (k.read c cs).2 = rest at hreads ⊢
  cases hreads with
  | blank | lineComment | blockComment => exact h
  | string | number | regex | name => exact ⟨h.ordered, h.bounded⟩
  | openComment | openString | openTemplate | openRegex | invalid => exact h.left _
  | template => exact h.template _
  | punct _ _ _ _ hbrace => exact h.punct hbrace

/-- A piece opens and closes as many substitutions as it says, unless it is a template that the text
ends. -/
theorem length_substitutions_read (k : Context) (c : Char) (cs : List Char)
    (h : (k.read c cs).1.kind ≠ .fault .unterminatedTemplate) :
    (k.after (k.read c cs).1).substitutions.length + (k.read c cs).1.resumesTemplate.toNat =
      k.substitutions.length + (k.read c cs).1.opensSubstitution.toNat := by
  have hreads : Piece.Reads k.slashOpensRegex k.braceResumesTemplate c cs (k.read c cs).1
    (k.read c cs).2 := Piece.reads_read ..
  generalize (k.read c cs).1 = p, (k.read c cs).2 = rest at hreads h ⊢
  cases hreads with
  | blank | lineComment | blockComment | string | number | regex | name | openComment | openString
  | openRegex | invalid => rfl
  | openTemplate => exact absurd rfl h
  | punct =>
    show (k.afterPunct _).substitutions.length + 0 = k.substitutions.length + 0
    rw [afterPunct_substitutions]
  | @template c cs hc =>
    -- A template that begins with a brace was read in a substitution, so there is one to close.
    have hresumes : Piece.resumesTemplate ⟨.template, c :: (Reading.template cs).taken⟩ = true →
        k.substitutions ≠ [] := by
      intro hresumes
      rcases hc with rfl | ⟨-, hbrace⟩
      · cases hresumes
      · exact substitutions_ne_nil hbrace
    rw [substitutions_after_template, ← length_left_add hresumes]
    cases Piece.opensSubstitution ⟨.template, c :: (Reading.template cs).taken⟩ with
    | false => rfl
    | true => exact Nat.add_right_comm ..

end Context

/-! ## One token -/

/-- The token is a stretch of a template that begins behind a substitution. -/
def Token.resumesTemplate (t : Token) : Bool :=
  t.kind = .template && t.text.toList.head? = some '}'

/-- The token is a stretch of a template that a substitution follows. -/
def Token.opensSubstitution (t : Token) : Bool :=
  t.kind = .template && ['$', '{'].isSuffixOf t.text.toList

namespace Piece

variable {p : Piece} {offset : Nat} {t : Token}

theorem kind_ne_of_token? (h : p.token? offset = some t) (hcode : t.code ≠ some 1160) :
    p.kind ≠ .fault .unterminatedTemplate := by
  intro hkind
  obtain ⟨kind, text⟩ := p
  subst hkind
  obtain rfl := Option.some.inj h
  exact hcode rfl

theorem resumesTemplate_of_token? (h : p.token? offset = some t) (hcode : t.code ≠ some 1160) :
    t.resumesTemplate = p.resumesTemplate := by
  have hfault := kind_ne_of_token? h hcode
  obtain ⟨kind, text⟩ := p
  cases kind <;> simp [token?, tokenKind?] at h hfault <;> subst h <;>
    simp [Token.resumesTemplate, resumesTemplate, hfault]

theorem opensSubstitution_of_token? (h : p.token? offset = some t) :
    t.opensSubstitution = p.opensSubstitution := by
  obtain ⟨kind, text⟩ := p
  cases kind <;> simp [token?, tokenKind?] at h <;> subst h <;>
    simp [Token.opensSubstitution, opensSubstitution, List.isSuffixOf]

/-- A closing brace that is a token of its own does not go on with a template. -/
theorem Reads.closingBrace {a b : Bool} {c : Char} {cs rest : List Char} (h : Reads a b c cs p rest)
    (hkind : p.tokenKind? = some .punct) (htext : p.text = ['}']) :
    p = ⟨.punct, ['}']⟩ ∧ b = false := by
  cases h with
  | punct _ _ _ _ hbrace =>
    obtain rfl := List.singleton_inj.mp htext
    exact ⟨rfl, hbrace rfl⟩
  | _ => simp [tokenKind?] at hkind

end Piece

namespace Lexer

theorem next_of_step_eq_none {l : Lexer} (h : l.step = none) : l.next = (Token.atEnd l.offset, l) := by
  rw [next, h]

theorem next_of_step_eq_some {l l' : Lexer} {p : Piece} (h : l.step = some (p, l')) :
    l.next = (p.token? l.offset).elim l'.next fun t => (t, l') := by
  rw [next, h]
  cases ht : p.token? l.offset <;> simp [ht]

theorem exists_read_of_step {l l' : Lexer} {p : Piece} (h : l.step = some (p, l')) :
    ∃ c cs, p = (l.context.read c cs).1 ∧ l'.context = l.context.after p := by
  cases hrest : l.rest with
  | nil =>
    rw [step_eq_none hrest] at h
    cases h
  | cons c cs =>
    rw [step_eq_some hrest, Option.some.injEq, Prod.mk.injEq] at h
    obtain ⟨rfl, rfl⟩ := h
    exact ⟨c, cs, rfl, rfl⟩

/-- The next token is a piece read in the context here, and the context behind it is the one behind that
piece. At the end of the text it is the end token and nothing changes. -/
theorem next_cases (l : Lexer) :
    (∃ c cs offset, (l.context.read c cs).1.token? offset = some l.next.1 ∧
      l.next.2.context = l.context.after (l.context.read c cs).1) ∨
    l.next.1.kind = .endOfText ∧ l.next.2.context = l.context := by
  -- On the way to the next token there are blanks and comments only, and they leave the context alone.
  induction l using next.induct with
  | case1 l h =>
    rw [next_of_step_eq_none h]
    exact Or.inr ⟨rfl, rfl⟩
  | case2 l p l' h t ht =>
    obtain ⟨c, cs, rfl, hcontext⟩ := exists_read_of_step h
    rw [next_of_step_eq_some h, ht]
    exact Or.inl ⟨c, cs, l.offset, ht, hcontext⟩
  | case3 l p l' h ht ih =>
    obtain ⟨c, cs, rfl, hcontext⟩ := exists_read_of_step h
    have hkind : (l.context.read c cs).1.tokenKind? = none := by
      simpa [Piece.token?] using ht
    rw [Context.after_of_tokenKind?_eq_none hkind] at hcontext
    rw [next_of_step_eq_some h, ht, ← hcontext]
    exact ih

theorem consistent_next {l : Lexer} (h : l.context.Consistent) : l.next.2.context.Consistent := by
  rcases l.next_cases with ⟨c, cs, offset, -, hcontext⟩ | ⟨-, hcontext⟩
  · rw [hcontext]
    exact h.read c cs
  · rwa [hcontext]

/-- A closing brace that is a token of its own closes a brace opened in the innermost substitution. -/
theorem braceDepth_next {l : Lexer} (h : l.context.Consistent) (hopen : l.context.substitutions ≠ [])
    (hkind : l.next.1.kind = .punct) (htext : l.next.1.text = "\x7d") :
    l.next.2.context.braceDepth + 1 = l.context.braceDepth ∧
      ∀ d ∈ l.context.substitutions, d ≤ l.next.2.context.braceDepth := by
  rcases l.next_cases with ⟨c, cs, offset, htoken, hcontext⟩ | ⟨hend, -⟩
  · have hpiece := Piece.kind_of_token? htoken
    rw [hkind] at hpiece
    have hbrace : (l.context.read c cs).1.text = ['}'] := by
      rw [← Piece.text_of_token? htoken (by simp [hkind]), htext]
      rfl
    obtain ⟨hread, hresumes⟩ := (Piece.reads_read _ _ c cs).closingBrace hpiece hbrace
    rw [hcontext, Context.read, hread]
    exact h.closingBrace hopen hresumes
  · rw [hkind] at hend
    cases hend

/-- The next token opens and closes as many substitutions as it says, unless it is a template that the
text ends. -/
theorem length_substitutions_next {l : Lexer} (h : l.next.1.code ≠ some 1160) :
    l.next.2.context.substitutions.length + l.next.1.resumesTemplate.toNat =
      l.context.substitutions.length + l.next.1.opensSubstitution.toNat := by
  rcases l.next_cases with ⟨c, cs, offset, htoken, hcontext⟩ | ⟨hend, hcontext⟩
  · rw [hcontext, Piece.resumesTemplate_of_token? htoken h, Piece.opensSubstitution_of_token? htoken]
    exact Context.length_substitutions_read _ c cs (Piece.kind_ne_of_token? htoken h)
  · simp [hcontext, Token.resumesTemplate, Token.opensSubstitution, hend]

/-! ## Every place -/

/-- The lexer has returned the tokens and stands at the place. -/
inductive Reaches (text : String) : List Token → Lexer → Prop where
  | start : Reaches text [] (ofText text)
  | next {ts : List Token} {l : Lexer} (h : Reaches text ts l) :
    Reaches text (ts ++ [l.next.1]) l.next.2

variable {text : String} {ts : List Token} {l : Lexer}

theorem Reaches.consistent (h : Reaches text ts l) : l.context.Consistent := by
  induction h with
  | start => exact Context.consistent_start
  | next _ ih => exact consistent_next ih

theorem Reaches.length_substitutions (h : Reaches text ts l) (hcode : ∀ t ∈ ts, t.code ≠ some 1160) :
    l.context.substitutions.length + ts.countP Token.resumesTemplate =
      ts.countP Token.opensSubstitution := by
  induction h with
  | start => rfl
  | @next ts l _ ih =>
    have hbefore := ih fun t ht => hcode t (List.mem_append_left _ ht)
    have hnext := length_substitutions_next (hcode l.next.1 (by simp))
    have hcount : ∀ q : Token → Bool, (ts ++ [l.next.1]).countP q = ts.countP q + (q l.next.1).toNat := by
      intro q
      rw [List.countP_append, List.countP_singleton]
      cases q l.next.1 <;> rfl
    rw [hcount, hcount]
    omega

/-- Wherever the lexer stands, the numbers kept for the open substitutions do not decrease towards the
inside and none is above the number of open braces. So inside a substitution a closing brace that is a
token of its own always finds an open brace, and does not go below the number kept. Until a template is
ended by the text, as many substitutions are open as stretches of templates have opened and not closed. -/
theorem Reaches.stacks_consistent (h : Reaches text ts l) :
    l.context.substitutions.Pairwise (· ≥ ·) ∧
    (∀ d ∈ l.context.substitutions, d ≤ l.context.braceDepth) ∧
    (l.context.substitutions ≠ [] → l.next.1.kind = .punct → l.next.1.text = "\x7d" →
      l.next.2.context.braceDepth + 1 = l.context.braceDepth ∧
        ∀ d ∈ l.context.substitutions, d ≤ l.next.2.context.braceDepth) ∧
    ((∀ t ∈ ts, t.code ≠ some 1160) →
      l.context.substitutions.length + ts.countP Token.resumesTemplate =
        ts.countP Token.opensSubstitution) := by
  have hconsistent := h.consistent
  refine ⟨hconsistent.ordered, hconsistent.bounded, ?_, h.length_substitutions⟩
  exact braceDepth_next hconsistent

/-- Behind `{a` inside a substitution, one brace is open that was not open where the substitution
began. -/
theorem Reaches.stacks_consistent_in_substitution :
    ∃ ts l, Reaches "`$\x7b \x7ba\x7d \x7d`" ts l ∧ l.context.substitutions = [0] ∧
      l.context.braceDepth = 1 ∧ l.next.1.text = "\x7d" ∧ l.next.2.context.braceDepth = 0 ∧
      ts.countP Token.opensSubstitution = 1 := by
  let l₀ := ofText "`$\x7b \x7ba\x7d \x7d`"
  let l := l₀.next.2.next.2.next.2
  let ts := [l₀.next.1, l₀.next.2.next.1, l₀.next.2.next.2.next.1]
  have h : Reaches "`$\x7b \x7ba\x7d \x7d`" ts l := .next (.next (.next .start))
  have hsubstitutions : l.context.substitutions = [0] := by decide +kernel
  have hdepth : l.context.braceDepth = 1 := by decide +kernel
  have hbrace : l.next.1.kind = .punct ∧ l.next.1.text = "\x7d" := by decide +kernel
  obtain ⟨-, -, hclosing, hcount⟩ := h.stacks_consistent
  have hafter := (hclosing (by simp [hsubstitutions]) hbrace.1 hbrace.2).1
  have hopened := hcount (by decide +kernel)
  have hresumed : ts.countP Token.resumesTemplate = 0 := by decide +kernel
  rw [hsubstitutions, hresumed] at hopened
  exact ⟨ts, l, h, hsubstitutions, hdepth, hbrace.2, by omega, hopened.symm⟩

end Lexer

end ModuleBuild
