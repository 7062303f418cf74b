import ModuleBuild.Proofs.Outline.Delimiters

/-!
# Substitutions in a file that passes the check

The lexer knows which braces close a substitution, but not where the other brackets stand; the
delimiter pass knows the brackets, but not the substitutions. `Context.Matches` relates what the lexer
remembers to one stack of all open delimiters, and as long as nothing is reported each piece keeps
them in step.

So in a file that passes the check the braces are never at fault: all delimiters are well nested as
soon as they are without the braces. They need not be, since neither pass looks at the substitutions
that are open at the end, or at the parentheses and square brackets that a substitution cuts in two.

Main statements: `wellNested_ofTokens_iff`; `wellNested_templateMarks_iff`, by which the lexer knows at
the end whether all substitutions are closed; and `open_substitution_passes_check`, which shows files
that pass the check although their templates are not in order.
-/

namespace ModuleBuild

open Delimiter

namespace Piece

/-- The delimiters that a piece brings, in order. -/
def delimiters (p : Piece) : List (Delimiter Enclosure) :=
  (p.token? 0).elim [] Token.delimiters

theorem delimiters_of_token? {p : Piece} {offset : Nat} {t : Token}
    (h : p.token? offset = some t) : t.delimiters = p.delimiters := by
  obtain ⟨kind, text⟩ := p
  cases kind <;> simp [token?, tokenKind?] at h <;> subst h <;> rfl

/-- The tokens among pieces bring the delimiters of the pieces. -/
theorem ofTokens_tokens (offset : Nat) (ps : List Piece) :
    Delimiter.ofTokens (tokens offset ps) = ps.flatMap delimiters := by
  induction ps generalizing offset with
  | nil => rfl
  | cons p ps ih =>
    have hrest := ih (offset + p.byteLength)
    rw [Delimiter.ofTokens] at hrest ⊢
    rw [tokens_cons, List.flatMap_append, hrest, List.flatMap_cons]
    congr 1
    cases ht : p.token? offset with
    | none =>
      have hnone : p.tokenKind? = none := by simpa [token?] using ht
      simp [delimiters, token?, hnone]
    | some t => simp [delimiters_of_token? ht]

theorem delimiters_opener (b : Bracket) :
    delimiters ⟨.punct, [b.opener]⟩ = [opening (.bracket b)] := by
  cases b <;> rfl

theorem delimiters_closer (b : Bracket) :
    delimiters ⟨.punct, [b.closer]⟩ = [closing (.bracket b)] := by
  cases b <;> rfl

theorem delimiters_punct_eq_nil {c : Char} (ho : Bracket.ofOpener? c = none)
    (hc : Bracket.ofCloser? c = none) : delimiters ⟨.punct, [c]⟩ = [] := by
  simp [delimiters, token?, tokenKind?, Token.delimiters, Token.opens?, Token.closes?,
    Token.punctChar?, ho, hc]

theorem delimiters_template (text : List Char) :
    delimiters ⟨.template, text⟩ =
      (if resumesTemplate ⟨.template, text⟩ then [closing .substitution] else []) ++
        if opensSubstitution ⟨.template, text⟩ then [opening .substitution] else [] := by
  simp [delimiters, token?, tokenKind?, Token.delimiters, resumesTemplate, opensSubstitution]

end Piece

namespace Context

/-! ## The open delimiters and the context -/

/-- The number of braces among open delimiters. -/
def braceCount (stack : List Enclosure) : Nat := stack.count (.bracket .curly)

/-- For each open substitution, the number of braces that were open where it began. -/
def depthsAt : List Enclosure → List Nat
  | [] => []
  | .substitution :: stack => braceCount stack :: depthsAt stack
  | .bracket _ :: stack => depthsAt stack

/-- The context counts the braces and remembers the substitutions of the open delimiters. -/
structure Matches (k : Context) (stack : List Enclosure) : Prop where
  braceDepth : k.braceDepth = braceCount stack
  substitutions : k.substitutions = depthsAt stack

theorem matches_start : Matches {} [] := ⟨rfl, rfl⟩

theorem le_braceCount_of_mem_depthsAt {stack : List Enclosure} {n : Nat}
    (h : n ∈ depthsAt stack) : n ≤ braceCount stack := by
  induction stack with
  | nil => simp [depthsAt] at h
  | cons e stack ih =>
    have hcons : braceCount stack ≤ braceCount (e :: stack) := List.count_le_count_cons
    cases e with
    | bracket b => exact (ih h).trans hcons
    | substitution =>
      rcases List.mem_cons.mp h with rfl | h
      · exact hcons
      · exact (ih h).trans hcons

/-- Where an innermost substitution is open, a brace resumes its template. -/
theorem Matches.braceResumesTemplate {k : Context} {stack : List Enclosure}
    (h : k.Matches (.substitution :: stack)) : k.braceResumesTemplate = true := by
  have hcount : braceCount (.substitution :: stack) = braceCount stack :=
    List.count_cons_of_ne (by simp)
  simp [Context.braceResumesTemplate, h.substitutions, h.braceDepth, depthsAt, hcount]

/-- Where an innermost brace is open, no brace resumes a template. -/
theorem Matches.not_braceResumesTemplate {k : Context} {stack : List Enclosure}
    (h : k.Matches (.bracket .curly :: stack)) : k.braceResumesTemplate = false := by
  have hcount : braceCount (.bracket .curly :: stack) = braceCount stack + 1 :=
    List.count_cons_self
  rw [Context.braceResumesTemplate, h.substitutions, h.braceDepth, depthsAt, hcount]
  cases hd : depthsAt stack with
  | nil => simp
  | cons n ns =>
    have hle : n ≤ braceCount stack := le_braceCount_of_mem_depthsAt (by simp [hd])
    have hne : n ≠ braceCount stack + 1 := by omega
    simpa using hne

/-! ## One piece -/

theorem afterPunct_substitutions (k : Context) (text : List Char) :
    (k.afterPunct text).substitutions = k.substitutions := by
  unfold afterPunct
  split <;> rfl

theorem afterPunct_braceDepth {k : Context} {c : Char} (ho : c ≠ '{') (hc : c ≠ '}') :
    (k.afterPunct [c]).braceDepth = k.braceDepth := by
  unfold afterPunct
  split <;> simp_all

/-- A bracket that is opened is counted if it is a brace. -/
theorem Matches.opener {k : Context} {stack : List Enclosure} (h : k.Matches stack) (b : Bracket) :
    (k.after ⟨.punct, [b.opener]⟩).Matches (.bracket b :: stack) := by
  refine ⟨?_, ?_⟩
  · cases b with
    | curly =>
      have hcount : braceCount (.bracket .curly :: stack) = braceCount stack + 1 :=
        List.count_cons_self
      rw [hcount, ← h.braceDepth]
      rfl
    | _ =>
      rw [braceCount, List.count_cons_of_ne (by simp), ← braceCount, ← h.braceDepth]
      rfl
  · exact (afterPunct_substitutions k _).trans h.substitutions

/-- A bracket that is closed is no longer counted if it is a brace. -/
theorem Matches.closer {k : Context} {stack : List Enclosure} {b : Bracket}
    (h : k.Matches (.bracket b :: stack)) : (k.after ⟨.punct, [b.closer]⟩).Matches stack := by
  refine ⟨?_, ?_⟩
  · have hdepth := h.braceDepth
    cases b with
    | curly =>
      have hcount : braceCount (.bracket .curly :: stack) = braceCount stack + 1 :=
        List.count_cons_self
      rw [hcount] at hdepth
      show k.braceDepth - 1 = braceCount stack
      omega
    | _ =>
      rw [braceCount, List.count_cons_of_ne (by simp), ← braceCount] at hdepth
      exact hdepth
  · exact (afterPunct_substitutions k _).trans h.substitutions

theorem Matches.congr {k k' : Context} {stack : List Enclosure} (h : k.Matches stack)
    (hdepth : k'.braceDepth = k.braceDepth) (hsubst : k'.substitutions = k.substitutions) :
    k'.Matches stack :=
  ⟨hdepth.trans h.braceDepth, hsubst.trans h.substitutions⟩

/-- A brace that resumes a template closes the innermost open delimiter if the others are in order. -/
theorem Matches.eq_cons_of_resume {k : Context} {stack out : List Enclosure} (h : k.Matches stack)
    (hresume : k.braceResumesTemplate = true)
    (hrun : run? (stack.filter (· ≠ .bracket .curly)) [closing .substitution] = some out) :
    ∃ rest, stack = .substitution :: rest := by
  cases stack with
  | nil => simp [run?] at hrun
  | cons top rest =>
    by_cases hcurly : top = .bracket .curly
    · subst hcurly
      rw [h.not_braceResumesTemplate] at hresume
      contradiction
    · rw [List.filter_cons_of_pos (by simpa using hcurly)] at hrun
      obtain ⟨_, hcons, -⟩ := eq_cons_of_run?_closing hrun
      exact ⟨rest, by rw [(List.cons.inj hcons).1]⟩

/-- A bracket that is closed is the innermost open delimiter if the brackets are in order, and so are
the delimiters other than braces. -/
theorem Matches.eq_cons_of_closer {k : Context} {stack out out' : List Enclosure} {b : Bracket}
    (h : k.Matches stack) (hbrace : b = .curly → k.braceResumesTemplate = false)
    (hbrackets : run? (stack.filter (· ≠ .substitution)) [closing (.bracket b)] = some out)
    (hbraceless :
      run? (stack.filter (· ≠ .bracket .curly)) (braceless [closing (.bracket b)]) = some out') :
    ∃ rest, stack = .bracket b :: rest := by
  cases stack with
  | nil => simp [run?] at hbrackets
  | cons top rest =>
    cases top with
    | bracket b' =>
      rw [List.filter_cons_of_pos (by simp)] at hbrackets
      obtain ⟨_, hcons, -⟩ := eq_cons_of_run?_closing hbrackets
      exact ⟨rest, by rw [(List.cons.inj hcons).1]⟩
    | substitution =>
      by_cases hb : b = .curly
      · have hfalse := hbrace hb
        rw [h.braceResumesTemplate] at hfalse
        contradiction
      · have hkeep : braceless [closing (.bracket b)] = [closing (.bracket b)] := by
          simp [braceless, hb]
        rw [hkeep, List.filter_cons_of_pos (by simp)] at hbraceless
        obtain ⟨_, hcons, -⟩ := eq_cons_of_run?_closing hbraceless
        cases (List.cons.inj hcons).1

/-- A stretch of a template keeps the context and the open delimiters in step. -/
theorem Matches.template {k : Context} {stack out : List Enclosure} {text : List Char}
    (h : k.Matches stack)
    (hresume : Piece.resumesTemplate ⟨.template, text⟩ = true → k.braceResumesTemplate = true)
    (hrun : run? (stack.filter (· ≠ .bracket .curly))
      (braceless (Piece.delimiters ⟨.template, text⟩)) = some out) :
    ∃ next, run? stack (Piece.delimiters ⟨.template, text⟩) = some next ∧
      (k.after ⟨.template, text⟩).Matches next := by
  rw [Piece.delimiters_template] at hrun ⊢
  rw [braceless_append] at hrun
  obtain ⟨mid, hmid, -⟩ := run?_append_eq_some hrun
  -- What is left when the substitution that the stretch closes is taken off.
  obtain ⟨rest, hclose, hdepth, hsubst⟩ : ∃ rest,
      run? stack (if Piece.resumesTemplate ⟨.template, text⟩ then [closing .substitution] else [])
        = some rest ∧ k.braceDepth = braceCount rest ∧
      (if Piece.resumesTemplate ⟨.template, text⟩ then k.substitutions.tail else k.substitutions)
        = depthsAt rest := by
    cases hr : Piece.resumesTemplate ⟨.template, text⟩ with
    | false => exact ⟨stack, rfl, h.braceDepth, h.substitutions⟩
    | true =>
      rw [hr] at hmid
      obtain ⟨rest, rfl⟩ := h.eq_cons_of_resume (hresume hr) hmid
      refine ⟨rest, rfl, ?_, ?_⟩
      · rw [h.braceDepth, braceCount, List.count_cons_of_ne (by simp), ← braceCount]
      · rw [if_pos rfl, h.substitutions, depthsAt, List.tail_cons]
  cases ho : Piece.opensSubstitution ⟨.template, text⟩ with
  | false =>
    refine ⟨rest, by simpa using hclose, hdepth, ?_⟩
    rw [← hsubst]
    simp [after, ho]
  | true =>
    refine ⟨.substitution :: rest, by simp [run?_append, hclose], ?_, ?_⟩
    · rw [braceCount, List.count_cons_of_ne (by simp), ← braceCount]
      exact hdepth
    · rw [depthsAt, ← hsubst, ← hdepth]
      simp [after, ho]

/-- A punctuation character keeps the context and the open delimiters in step. -/
theorem Matches.punct {k : Context} {stack out out' : List Enclosure} {c : Char}
    (h : k.Matches stack) (hbrace : c = '}' → k.braceResumesTemplate = false)
    (hbrackets : run? (stack.filter (· ≠ .substitution))
      (brackets (Piece.delimiters ⟨.punct, [c]⟩)) = some out)
    (hbraceless : run? (stack.filter (· ≠ .bracket .curly))
      (braceless (Piece.delimiters ⟨.punct, [c]⟩)) = some out') :
    ∃ next, run? stack (Piece.delimiters ⟨.punct, [c]⟩) = some next ∧
      (k.after ⟨.punct, [c]⟩).Matches next := by
  rcases Bracket.cases_of_char c with ⟨b, rfl⟩ | ⟨b, rfl⟩ | ⟨ho, hc⟩
  · rw [Piece.delimiters_opener]
    exact ⟨.bracket b :: stack, rfl, h.opener b⟩
  · rw [Piece.delimiters_closer] at hbrackets hbraceless ⊢
    obtain ⟨rest, rfl⟩ := h.eq_cons_of_closer (fun hb => hbrace (by rw [hb]; rfl)) hbrackets hbraceless
    exact ⟨rest, run?_closing_self .., h.closer⟩
  · rw [Piece.delimiters_punct_eq_nil ho hc]
    have hopen : c ≠ '{' := fun hcon => by subst hcon; cases ho
    have hclose : c ≠ '}' := fun hcon => by subst hcon; cases hc
    exact ⟨stack, rfl, h.congr (afterPunct_braceDepth hopen hclose) (afterPunct_substitutions ..)⟩

/-- A piece that is no error keeps the context and the open delimiters in step, as long as the
brackets are in order, and so are the delimiters other than braces. -/
theorem Matches.read {k : Context} {stack out out' : List Enclosure} {c : Char} {cs : List Char}
    (h : k.Matches stack) (herror : (k.read c cs).1.tokenKind? ≠ some .error)
    (hbrackets : run? (stack.filter (· ≠ .substitution)) (brackets (k.read c cs).1.delimiters)
      = some out)
    (hbraceless : run? (stack.filter (· ≠ .bracket .curly)) (braceless (k.read c cs).1.delimiters)
      = some out') :
    ∃ next, run? stack (k.read c cs).1.delimiters = some next ∧
      (k.after (k.read c cs).1).Matches next := by
  have hreads : Piece.Reads k.slashOpensRegex k.braceResumesTemplate c cs (k.read c cs).1
    (k.read c cs).2 := Piece.reads_read ..
  generalize (k.read c cs).1 = p, (k.read c cs).2 = rest at hreads herror hbrackets hbraceless ⊢
  cases hreads with
  | blank | lineComment | blockComment => exact ⟨stack, rfl, h⟩
  | string | number | regex | name => exact ⟨stack, rfl, h.congr rfl rfl⟩
  | openComment | openString | openTemplate | openRegex | invalid => exact absurd rfl herror
  | template hc _ =>
    refine h.template (fun hresume => ?_) hbraceless
    rcases hc with rfl | ⟨-, hc⟩
    · cases hresume
    · exact hc
  | punct _ _ _ _ hbrace _ => exact h.punct hbrace hbrackets hbraceless

/-- In a text without errors the delimiters are in order if the brackets are, and so are the delimiters
other than braces. -/
theorem Matches.pieces {k : Context} {stack out out' : List Enclosure} {cs : List Char}
    (h : k.Matches stack) (herror : ∀ p ∈ k.pieces cs, p.tokenKind? ≠ some .error)
    (hbrackets : run? (stack.filter (· ≠ .substitution))
      (brackets ((k.pieces cs).flatMap Piece.delimiters)) = some out)
    (hbraceless : run? (stack.filter (· ≠ .bracket .curly))
      (braceless ((k.pieces cs).flatMap Piece.delimiters)) = some out') :
    ∃ last, run? stack ((k.pieces cs).flatMap Piece.delimiters) = some last := by
  induction k, cs using Context.pieces.induct generalizing stack with
  | case1 k => exact ⟨stack, by simp⟩
  | case2 k c cs ih =>
    rw [pieces_cons] at herror hbrackets hbraceless ⊢
    rw [List.flatMap_cons, brackets_append] at hbrackets
    rw [List.flatMap_cons, braceless_append] at hbraceless
    obtain ⟨_, hb₁, hb₂⟩ := run?_append_eq_some hbrackets
    obtain ⟨_, hr₁, hr₂⟩ := run?_append_eq_some hbraceless
    obtain ⟨next, hrun, hnext⟩ := h.read (herror _ (List.mem_cons_self ..)) hb₁ hr₁
    -- The two stacks are the parts of the whole one, so the rest of the text goes on from there.
    rw [brackets, run?_filter hrun, Option.some.injEq] at hb₁
    rw [braceless, run?_filter hrun, Option.some.injEq] at hr₁
    subst hb₁ hr₁
    obtain ⟨last, hlast⟩ := ih hnext (fun p hp => herror p (List.mem_cons_of_mem _ hp)) hb₂ hr₂
    exact ⟨last, by rw [List.flatMap_cons, run?_append, hrun]; exact hlast⟩

/-! ## The substitutions that the lexer remembers -/

/-- The substitutions that are open in this context. -/
def openSubstitutions (k : Context) : List Enclosure := k.substitutions.map fun _ => .substitution

/-- A stretch of a template closes and opens what the context forgets and remembers. -/
theorem run?_templateMarks_template {k : Context} {text : List Char}
    (hresume : Piece.resumesTemplate ⟨.template, text⟩ = true → k.braceResumesTemplate = true) :
    run? k.openSubstitutions (templateMarks (Piece.delimiters ⟨.template, text⟩)) =
      some (k.after ⟨.template, text⟩).openSubstitutions := by
  rw [Piece.delimiters_template, openSubstitutions, openSubstitutions]
  cases hr : Piece.resumesTemplate ⟨.template, text⟩ with
  | false =>
    cases ho : Piece.opensSubstitution ⟨.template, text⟩ <;>
      simp [templateMarks, after, hr, ho]
  | true =>
    obtain ⟨rest, hrest⟩ : ∃ rest, k.substitutions = k.braceDepth :: rest := by
      have hhead := hresume hr
      rw [braceResumesTemplate] at hhead
      cases hs : k.substitutions with
      | nil => simp [hs] at hhead
      | cons n rest => exact ⟨rest, by simpa [hs] using hhead⟩
    cases ho : Piece.opensSubstitution ⟨.template, text⟩ <;>
      simp [templateMarks, after, hr, ho, hrest]

/-- The lexer remembers the substitutions that are open. -/
theorem run?_templateMarks_read {k : Context} {c : Char} {cs : List Char}
    (herror : (k.read c cs).1.tokenKind? ≠ some .error) :
    run? k.openSubstitutions (templateMarks (k.read c cs).1.delimiters) =
      some (k.after (k.read c cs).1).openSubstitutions := by
  have hreads : Piece.Reads k.slashOpensRegex k.braceResumesTemplate c cs (k.read c cs).1
    (k.read c cs).2 := Piece.reads_read ..
  generalize (k.read c cs).1 = p, (k.read c cs).2 = rest at hreads herror ⊢
  cases hreads with
  | blank | lineComment | blockComment | string | number | regex | name => rfl
  | openComment | openString | openTemplate | openRegex | invalid => exact absurd rfl herror
  | punct =>
    have hnone : templateMarks (Piece.delimiters ⟨.punct, [c]⟩) = [] := by
      rcases Bracket.cases_of_char c with ⟨b, rfl⟩ | ⟨b, rfl⟩ | ⟨ho, hc⟩
      · rw [Piece.delimiters_opener]
        rfl
      · rw [Piece.delimiters_closer]
        rfl
      · rw [Piece.delimiters_punct_eq_nil ho hc]
        rfl
    rw [hnone, run?_nil, openSubstitutions, openSubstitutions, after, afterPunct_substitutions]
  | template hc _ =>
    refine run?_templateMarks_template fun hresume => ?_
    rcases hc with rfl | ⟨-, hc⟩
    · cases hresume
    · exact hc

theorem run?_templateMarks_pieces {k : Context} {cs : List Char}
    (herror : ∀ p ∈ k.pieces cs, p.tokenKind? ≠ some .error) :
    run? k.openSubstitutions (templateMarks ((k.pieces cs).flatMap Piece.delimiters)) =
      some (k.afterAll (k.pieces cs)).openSubstitutions := by
  induction k, cs using Context.pieces.induct with
  | case1 k =>
    rw [pieces_nil]
    rfl
  | case2 k c cs ih =>
    rw [pieces_cons] at herror ⊢
    rw [List.flatMap_cons, templateMarks_append, run?_append,
      run?_templateMarks_read (herror _ (List.mem_cons_self ..)), Option.bind_some, afterAll_cons]
    exact ih fun p hp => herror p (List.mem_cons_of_mem _ hp)

end Context

/-! ## A whole text -/

/-- The delimiters of a text are those of its pieces. -/
theorem Delimiter.ofTokens_ofText (text : String) :
    Delimiter.ofTokens (Lexed.ofText text).tokens = (Piece.ofText text).flatMap Piece.delimiters := by
  rw [Lexed.tokens_ofText, Delimiter.ofTokens, List.flatMap_append, ← Delimiter.ofTokens,
    Piece.ofTokens_tokens]
  exact List.append_nil _

/-- In a text without error tokens every substitution is closed exactly if the lexer remembers none at
the end. -/
theorem wellNested_templateMarks_iff {text : String}
    (h : ∀ t ∈ (Lexed.ofText text).tokens, t.kind ≠ .error) :
    WellNested (templateMarks (Delimiter.ofTokens (Lexed.ofText text).tokens)) ↔
      (Lexer.ofText text).tokenize.2.context.substitutions = [] := by
  have hrun := Context.run?_templateMarks_pieces (Piece.tokenKind?_ne_error h)
  rw [← Piece.ofText, ← Delimiter.ofTokens_ofText] at hrun
  have hlast : (Lexer.ofText text).tokenize.2.context = Context.afterAll {} (Piece.ofText text) := by
    rw [Lexer.tokenize_eq]
    rfl
  rw [wellNested_iff, hlast]
  show run? (Context.openSubstitutions {}) _ = some [] ↔ _
  rw [hrun, Option.some.injEq, Context.openSubstitutions, List.map_eq_nil_iff]

/-- In a text without errors whose brackets are in order, all delimiters are in order as soon as those
other than braces are. -/
theorem wellNested_of_braceless {text : String}
    (herror : ∀ t ∈ (Lexed.ofText text).tokens, t.kind ≠ .error)
    (hbrackets : WellNested (brackets (Delimiter.ofTokens (Lexed.ofText text).tokens)))
    (hbraceless : WellNested (braceless (Delimiter.ofTokens (Lexed.ofText text).tokens))) :
    WellNested (Delimiter.ofTokens (Lexed.ofText text).tokens) := by
  rw [Delimiter.ofTokens_ofText, wellNested_iff] at hbrackets hbraceless ⊢
  obtain ⟨last, hlast⟩ := Context.matches_start.pieces (Piece.tokenKind?_ne_error herror)
    hbrackets hbraceless
  -- What is left open is neither a bracket nor anything else than a brace.
  have hb := run?_filter hlast (· ≠ .substitution)
  have hr := run?_filter hlast (· ≠ .bracket .curly)
  have hnobracket : last.filter (· ≠ .substitution) = [] :=
    Option.some.inj (hb.symm.trans hbrackets)
  have honlybrace : last.filter (· ≠ .bracket .curly) = [] :=
    Option.some.inj (hr.symm.trans hbraceless)
  have hempty : last = [] := by
    rw [List.eq_nil_iff_forall_not_mem]
    intro e he
    have h₁ := List.filter_eq_nil_iff.mp hnobracket e he
    have h₂ := List.filter_eq_nil_iff.mp honlybrace e he
    simp_all
  rw [hempty] at hlast
  exact hlast

/-- In a file that passes the check, all delimiters are well nested exactly if those other than braces
are, and every substitution is closed exactly if the lexer remembers none at the end. -/
theorem wellNested_ofTokens_iff (root : Path) (options : Options) (text : String)
    (h : (LexicalProgram.ofText root options text).1.diagnostics = []) :
    (WellNested (Delimiter.ofTokens (Lexed.ofText text).tokens) ↔
      WellNested (braceless (Delimiter.ofTokens (Lexed.ofText text).tokens))) ∧
    (WellNested (templateMarks (Delimiter.ofTokens (Lexed.ofText text).tokens)) ↔
      (Lexer.ofText text).tokenize.2.context.substitutions = []) := by
  obtain ⟨herror, hbrackets⟩ := (LexicalProgram.diagnostics_eq_nil_iff root options text).mp h
  refine ⟨⟨fun hall => ?_, fun hbraceless => ?_⟩, wellNested_templateMarks_iff herror⟩
  · exact hall.filter (· ≠ .bracket .curly)
  · exact wellNested_of_braceless herror hbrackets hbraceless

/-- An object literal and a call inside a substitution. -/
theorem wellNested_object_in_substitution :
    (LexicalProgram.ofText ⟨"a.ts"⟩ {} "`a$\x7b f(\x7bb: [1]\x7d) \x7dc`").1.diagnostics = [] ∧
      WellNested (Delimiter.ofTokens (Lexed.ofText "`a$\x7b f(\x7bb: [1]\x7d) \x7dc`").tokens) := by
  have h : (LexicalProgram.ofText ⟨"a.ts"⟩ {} "`a$\x7b f(\x7bb: [1]\x7d) \x7dc`").1.diagnostics = [] := by
    rw [LexicalProgram.diagnostics_eq_nil_iff]
    decide +kernel
  exact ⟨h, (wellNested_ofTokens_iff ⟨"a.ts"⟩ {} _ h).1.mpr (by decide +kernel)⟩

/-- Nothing is reported about a substitution that the text ends, nor about a parenthesis that is opened
inside a substitution and closed outside. -/
theorem open_substitution_passes_check :
    ((LexicalProgram.ofText ⟨"a.ts"⟩ {} "`$\x7b").1.diagnostics = [] ∧
      ¬WellNested (Delimiter.ofTokens (Lexed.ofText "`$\x7b").tokens)) ∧
    ((LexicalProgram.ofText ⟨"a.ts"⟩ {} "`$\x7b(\x7d`)").1.diagnostics = [] ∧
      ¬WellNested (Delimiter.ofTokens (Lexed.ofText "`$\x7b(\x7d`)").tokens)) := by
  rw [LexicalProgram.diagnostics_eq_nil_iff, LexicalProgram.diagnostics_eq_nil_iff]
  decide +kernel

end ModuleBuild
