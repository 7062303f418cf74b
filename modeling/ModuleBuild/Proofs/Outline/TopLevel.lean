import ModuleBuild.Proofs.Outline.Scanning

/-!
# Import declarations at the top level

An import declaration that stands behind tokens whose brackets are all closed is scanned as a whole,
whatever these tokens are. The readers of the scanner look ahead, but not into the declaration: a
search for a closing brace ends before it, because the brace is there, and a search for a specifier
ends at the word `import`. So the tokens before the declaration, the declaration, and those behind it
are scanned each on their own.

Main statement: `import_at_top_level`, by which the declaration is found and keeps its modifier unless
its default binding is called `from`.
-/

namespace ModuleBuild

namespace Token

variable {stack out : List Enclosure} {t : Token} {ts us : List Token}

/-! ## Brackets that are open -/

/-- The tokens close the brackets that are open before them, and those that they open. -/
def Closes (stack : List Enclosure) (ts : List Token) : Prop :=
  Delimiter.run? stack (Delimiter.brackets (Delimiter.ofTokens ts)) = some []

theorem Closes.eq_nil (h : Closes stack []) : stack = [] := Option.some.inj h

theorem Closes.exists_right (h : Closes stack (ts ++ us)) : ∃ out,
    Delimiter.run? stack (Delimiter.brackets (Delimiter.ofTokens ts)) = some out ∧ Closes out us := by
  unfold Closes at h
  rw [Delimiter.ofTokens, List.flatMap_append, Delimiter.brackets_append] at h
  exact Delimiter.run?_append_eq_some h

theorem Closes.exists_tail (h : Closes stack (t :: ts)) : ∃ out,
    Delimiter.run? stack (Delimiter.brackets t.delimiters) = some out ∧ Closes out ts := by
  obtain ⟨out, hout, hts⟩ := @Closes.exists_right stack [t] ts h
  refine ⟨out, ?_, hts⟩
  rwa [Delimiter.ofTokens, List.flatMap_singleton] at hout

theorem opens?_eq_some_iff {b : Bracket} : t.opens? = some b ↔ t.isPunct b.opener = true := by
  rw [isPunct_iff, opens?]
  cases t.punctChar? with
  | none => simp
  | some c =>
    rw [Option.bind_some, Option.some_inj]
    unfold Bracket.ofOpener?
    cases b <;> split_ifs <;> simp_all [Bracket.opener]

theorem closes?_eq_some_iff {b : Bracket} : t.closes? = some b ↔ t.isPunct b.closer = true := by
  rw [isPunct_iff, closes?]
  cases t.punctChar? with
  | none => simp
  | some c =>
    rw [Option.bind_some, Option.some_inj]
    unfold Bracket.ofCloser?
    cases b <;> split_ifs <;> simp_all [Bracket.closer]

/-- The number of open braces. -/
def braces (stack : List Enclosure) : Nat := stack.count (.bracket .curly)

/-- A token opens a brace, closes one that is open, or does neither. -/
theorem Closes.braces_cases (h : Closes stack (t :: ts)) : ∃ out, Closes out ts ∧
    (t.isPunct '{' = true ∧ braces out = braces stack + 1 ∨
      t.isPunct '{' = false ∧ t.isPunct '}' = true ∧ braces stack = braces out + 1 ∨
      t.isPunct '{' = false ∧ t.isPunct '}' = false ∧ braces out = braces stack) := by
  obtain ⟨out, hout, hts⟩ := h.exists_tail
  refine ⟨out, hts, ?_⟩
  have hopens : t.isPunct '{' = true ↔ t.opens? = some .curly := (@opens?_eq_some_iff t .curly).symm
  have hcloses : t.isPunct '}' = true ↔ t.closes? = some .curly := (@closes?_eq_some_iff t .curly).symm
  simp only [← Bool.not_eq_true, hopens, hcloses, braces]
  cases ho : t.opens? with
  | some b =>
    rw [brackets_delimiters_of_opens? ho, Delimiter.run?_opening] at hout
    cases hout
    by_cases hb : b = .curly
    · simp [hb]
    · simp [hb, closes?_eq_none_of_opens? ho]
  | none =>
    cases hc : t.closes? with
    | some b =>
      rw [brackets_delimiters_of_closes? ho hc] at hout
      obtain ⟨rest, rfl, hrest⟩ := Delimiter.eq_cons_of_run?_closing hout
      cases hrest
      by_cases hb : b = .curly
      · simp [hb]
      · simp [hb]
    | none =>
      rw [brackets_delimiters_of_neither ho hc] at hout
      cases hout
      simp

theorem depthBehind_mono {m n : Nat} (h : m ≤ n) (t : Token) :
    Statement.depthBehind m t ≤ Statement.depthBehind n t := by
  unfold Statement.depthBehind
  split
  · split_ifs <;> omega
  · exact h

end Token

namespace Statement

variable {stack : List Enclosure} {ts : List Token}

/-! ## Looking ahead -/

theorem closingBrace?_append {depth : Nat} {last : Token} {rest : List Token}
    (h : closingBrace? depth ts = some (last, rest)) (more : List Token) :
    closingBrace? depth (ts ++ more) = some (last, rest ++ more) := by
  induction ts generalizing depth with
  | nil => cases h
  | cons t ts ih =>
    rw [List.cons_append]
    unfold closingBrace? at h ⊢
    split_ifs at h ⊢ with hopens hcloses hlast
    · exact ih h
    · cases h
      rfl
    · exact ih h
    · exact ih h

/-- Where the brace is open, its closing brace is found. -/
theorem exists_closingBrace? (h : Token.Closes stack ts) {depth : Nat} (hpos : 0 < depth)
    (hdepth : depth ≤ Token.braces stack) : ∃ last rest, closingBrace? depth ts = some (last, rest) := by
  induction ts generalizing stack depth with
  | nil =>
    rw [h.eq_nil] at hdepth
    exact absurd hdepth (Nat.not_le_of_lt hpos)
  | cons t ts ih =>
    obtain ⟨out, hts, ⟨ho, hout⟩ | ⟨ho, hc, hout⟩ | ⟨ho, hc, hout⟩⟩ := h.braces_cases
    · rw [closingBrace?, ho]
      exact ih hts (Nat.succ_pos _) (by omega)
    · rw [closingBrace?, ho, hc]
      by_cases hlast : depth ≤ 1
      · exact ⟨t, ts, by simp [hlast]⟩
      · have hpred : 0 < depth - 1 := by omega
        obtain ⟨last, rest, hrest⟩ := ih hts hpred (by omega)
        exact ⟨last, rest, by simp [hlast, hrest]⟩
    · rw [closingBrace?, ho, hc]
      exact ih hts hpos (by omega)

variable {keyword : Token} (hkeyword : keyword.isWord "import" = true) (behind : List Token)
include hkeyword

theorem attributes?_append (h : Token.Closes stack ts) :
    attributes? (ts ++ keyword :: behind) =
      (attributes? ts).map fun r => (r.1, r.2 ++ keyword :: behind) := by
  rcases ts with _ | ⟨word, _ | ⟨brace, ts⟩⟩
  · have hwith : keyword.isWord "with" = false := Token.isWord_of_isWord hkeyword (by decide)
    have hassert : keyword.isWord "assert" = false := Token.isWord_of_isWord hkeyword (by decide)
    cases behind <;> simp [attributes?, hwith, hassert]
  · have hbrace : keyword.isPunct '{' = false := Token.isPunct_of_isWord hkeyword
    simp [attributes?, hbrace]
  · rw [List.cons_append, List.cons_append, attributes?, attributes?]
    by_cases hword : ((word.isWord "with" || word.isWord "assert") && brace.isPunct '{') = true
    · -- The attributes are closed, since all brackets are.
      obtain ⟨out, -, hbrace⟩ := h.exists_tail
      obtain ⟨out', hts, hout'⟩ := hbrace.braces_cases
      have hopens : brace.isPunct '{' = true := (Bool.and_eq_true _ _ ▸ hword).2
      simp only [hopens, Bool.true_eq_false, false_and, or_false, true_and] at hout'
      obtain ⟨last, rest, hclose⟩ := exists_closingBrace? hts Nat.one_pos (by omega)
      rw [if_pos hword, if_pos hword, hclose, closingBrace?_append hclose]
      rfl
    · rw [if_neg hword, if_neg hword]
      rfl

/-- A declaration ends before the next one. -/
theorem finish_append (h : Token.Closes stack ts) (specifier : Token) :
    finish specifier (ts ++ keyword :: behind) =
      ((finish specifier ts).1, (finish specifier ts).2 ++ keyword :: behind) := by
  have hsemicolon : keyword.isPunct ';' = false := Token.isPunct_of_isWord hkeyword
  have hattributes : (attributes? (ts ++ keyword :: behind)).getD (specifier, ts ++ keyword :: behind) =
      (((attributes? ts).getD (specifier, ts)).1,
        ((attributes? ts).getD (specifier, ts)).2 ++ keyword :: behind) := by
    rw [attributes?_append hkeyword behind h]
    cases attributes? ts <;> rfl
  rw [finish, hattributes, finish]
  rcases (attributes? ts).getD (specifier, ts) with ⟨last, _ | ⟨t, rest⟩⟩
  · simp [hsemicolon]
  · dsimp only [List.cons_append]
    split_ifs <;> rfl

/-- The search for a specifier ends before the next declaration. -/
theorem importSpecifier?_append (h : Token.Closes stack ts) {depth : Nat}
    (hdepth : depth ≤ Token.braces stack) (before : Option Token) :
    importSpecifier? before depth (ts ++ keyword :: behind) =
      (importSpecifier? before depth ts).map fun r => (r.1, r.2.1, r.2.2 ++ keyword :: behind) := by
  induction ts generalizing stack depth before with
  | nil =>
    have hnone : depth = 0 := by
      rw [h.eq_nil] at hdepth
      exact Nat.le_zero.mp hdepth
    have hpunct : ∀ c, keyword.isPunct c = false := fun _ => Token.isPunct_of_isWord hkeyword
    simp [importSpecifier?, hnone, hkeyword, hpunct, Token.kind_of_isWord hkeyword]
  | cons t ts ih =>
    rw [List.cons_append]
    unfold importSpecifier?
    by_cases hstring : (decide (depth = 0) && decide (t.kind = .string)) = true
    · rw [if_pos hstring, if_pos hstring]
      rfl
    · rw [if_neg hstring, if_neg hstring]
      obtain ⟨out, hts, ⟨ho, hout⟩ | ⟨ho, hc, hout⟩ | ⟨ho, hc, hout⟩⟩ := h.braces_cases
      · rw [ho, if_pos rfl, if_pos rfl]
        exact ih hts (by omega) _
      · rw [ho, hc]
        simp only [Bool.false_eq_true, if_false, if_true]
        by_cases hnone : depth = 0
        · rw [if_pos hnone, if_pos hnone]
          rfl
        · rw [if_neg hnone, if_neg hnone]
          exact ih hts (by omega) _
      · rw [ho, hc]
        simp only [Bool.false_eq_true, if_false]
        split_ifs
        · rfl
        · exact ih hts (by omega) _

/-! ## Declarations before the declaration -/

omit hkeyword in
/-- The next tokens show whether a modifier comes first, and whether a name and an equals sign follow. A
string is none of these, so no more is looked at than what reaches to a string. -/
theorem lookahead_append {specifier : Token} (hkind : specifier.kind = .string)
    (hts : ∃ used rest, ts = used ++ specifier :: rest) (more : List Token) :
    (ts ++ more).head? = ts.head? ∧ hasTypeModifier (ts ++ more) = hasTypeModifier ts ∧
      isAssignment (dropTypeModifier (ts ++ more)) = isAssignment (dropTypeModifier ts) := by
  have hword : ∀ w, specifier.isWord w = false := fun _ => Token.isWord_of_kind (by simp [hkind])
  have hpunct : ∀ c, specifier.isPunct c = false := fun _ => Token.isPunct_of_kind (by simp [hkind])
  obtain ⟨used, rest, rfl⟩ := hts
  rcases used with _ | ⟨t, _ | ⟨u, used⟩⟩
  · cases rest <;> cases more <;>
      simp [dropTypeModifier, hasTypeModifier, isAssignment, hword, hkind]
  · simp [dropTypeModifier, hasTypeModifier, isAssignment, hpunct, hkind]
  · obtain ⟨v, vs, hvs⟩ : ∃ v vs, used ++ specifier :: rest = v :: vs := by cases used <;> simp
    have hsplit : t :: u :: used ++ specifier :: rest = t :: u :: v :: vs :=
      congrArg (t :: u :: ·) hvs
    rw [hsplit]
    have hmodifier : hasTypeModifier (t :: u :: v :: vs ++ more) = hasTypeModifier (t :: u :: v :: vs) :=
      rfl
    refine ⟨rfl, hmodifier, ?_⟩
    rw [dropTypeModifier, dropTypeModifier, hmodifier]
    split_ifs <;> rfl

/-- An import declaration ends before the next declaration. -/
theorem importDeclaration?_append (h : Token.Closes stack ts) (t : Token) :
    importDeclaration? t (ts ++ keyword :: behind) =
      (importDeclaration? t ts).map fun r => (r.1, r.2 ++ keyword :: behind) := by
  have hsearch := importSpecifier?_append hkeyword behind h (Nat.zero_le _) none
  unfold importDeclaration?
  cases hfound : importSpecifier? none 0 ts with
  | none =>
    rw [hfound] at hsearch
    rw [hsearch]
    simp
  | some r =>
    obtain ⟨before, specifier, rest⟩ := r
    rw [hfound] at hsearch
    obtain ⟨hkind, used, hused⟩ := importSpecifier?_eq_append hfound
    obtain ⟨hhead, hmodifier, hassignment⟩ :=
      lookahead_append hkind ⟨used, rest, hused⟩ (keyword :: behind)
    obtain ⟨out, -, hbehind⟩ := Token.Closes.exists_right (hused ▸ h)
    obtain ⟨out', -, hrest⟩ := hbehind.exists_tail
    rw [hsearch, hhead, hmodifier, hassignment]
    simp only [Option.map_some]
    rw [finish_append hkeyword behind hrest]
    split_ifs <;> rfl

/-- Behind the clause of a re-export stands what stood behind it, unless the clause takes the last tokens
and the keyword too. -/
theorem exportClause?_append (h : Token.Closes stack ts) :
    exportClause? (ts ++ keyword :: behind) = (exportClause? ts).map (· ++ keyword :: behind) ∨
      exportClause? ts = some [] ∧ exportClause? (ts ++ keyword :: behind) = some behind := by
  cases ts with
  | nil =>
    have hpunct : ∀ c, keyword.isPunct c = false := fun _ => Token.isPunct_of_isWord hkeyword
    exact Or.inl (by simp [exportClause?, hpunct])
  | cons t ts =>
    rw [List.cons_append, exportClause?, exportClause?]
    by_cases hstar : t.isPunct '*' = true
    · rw [if_pos hstar, if_pos hstar]
      rcases ts with _ | ⟨word, _ | ⟨name, ts⟩⟩
      · have has : keyword.isWord "as" = false := Token.isWord_of_isWord hkeyword (by decide)
        exact Or.inl (by simp [has])
      · by_cases has : word.isWord "as" = true
        · exact Or.inr (by simp [has])
        · exact Or.inl (by simp [has])
      · refine Or.inl ?_
        by_cases has : word.isWord "as" = true
        · simp [has]
        · simp [has]
    · rw [if_neg hstar, if_neg hstar]
      refine Or.inl ?_
      obtain ⟨out, hts, ⟨ho, hout⟩ | ⟨ho, -⟩ | ⟨ho, -⟩⟩ := h.braces_cases
      · obtain ⟨last, rest, hclose⟩ := exists_closingBrace? hts Nat.one_pos (by omega)
        rw [if_pos ho, if_pos ho, hclose, closingBrace?_append hclose]
        rfl
      · simp [ho]
      · simp [ho]

/-- The word `type` is left out on its own. -/
theorem exists_clause (h : Token.Closes stack ts) : ∃ us out, Token.Closes out us ∧
    (if ts.head?.any (·.isWord "type") then ts.tail else ts) = us ∧
    (if (ts ++ keyword :: behind).head?.any (·.isWord "type")
      then (ts ++ keyword :: behind).tail else ts ++ keyword :: behind) = us ++ keyword :: behind := by
  cases ts with
  | nil =>
    have htype : keyword.isWord "type" = false := Token.isWord_of_isWord hkeyword (by decide)
    exact ⟨[], stack, h, rfl, by simp [htype]⟩
  | cons u us =>
    by_cases htype : u.isWord "type" = true
    · obtain ⟨out, -, hus⟩ := h.exists_tail
      exact ⟨us, out, hus, by simp [htype], by simp [htype]⟩
    · exact ⟨u :: us, stack, h, by simp [htype], by simp [htype]⟩

/-- A re-export ends before the next declaration, unless what stands behind its keyword could end it. -/
theorem exportDeclaration?_append (h : Token.Closes stack ts)
    (hbehind : ∀ word specifier rest, behind = word :: specifier :: rest →
      word.isWord "from" = true → specifier.kind ≠ .string) (t : Token) :
    exportDeclaration? t (ts ++ keyword :: behind) =
      (exportDeclaration? t ts).map fun r => (r.1, r.2 ++ keyword :: behind) := by
  obtain ⟨us, out, hus, hts, hmore⟩ := exists_clause hkeyword behind h
  have hfrom : keyword.isWord "from" = false := Token.isWord_of_isWord hkeyword (by decide)
  have hstring : keyword.kind ≠ .string := by simp [Token.kind_of_isWord hkeyword]
  rw [exportDeclaration?, exportDeclaration?, hts, hmore]
  rcases exportClause?_append hkeyword behind hus with hclause | ⟨hnil, hclause⟩
  · rw [hclause]
    cases hown : exportClause? us with
    | none => rfl
    | some rest =>
      obtain ⟨used, rfl⟩ := exportClause?_eq_append hown
      rcases rest with _ | ⟨word, _ | ⟨specifier, rest⟩⟩
      · cases behind <;> simp [hfrom]
      · simp [hstring]
      · have hassoc : used ++ word :: specifier :: rest = (used ++ [word, specifier]) ++ rest := by simp
        obtain ⟨out', -, hrest⟩ := Token.Closes.exists_right (hassoc ▸ hus)
        have hfinish := finish_append hkeyword behind hrest specifier
        simp only [Option.map_some, List.cons_append, hfinish]
        split_ifs <;> rfl
  · rw [hclause, hnil]
    rcases behind with _ | ⟨word, _ | ⟨specifier, rest⟩⟩
    · rfl
    · rfl
    · have hnone : ¬(word.isWord "from" && decide (specifier.kind = .string)) = true := by
        rw [Bool.and_eq_true, decide_eq_true_eq]
        rintro ⟨hword, hkind⟩
        exact hbehind word specifier rest rfl hword hkind
      simp only [hnone]
      rfl

theorem moduleStatement?_append (h : Token.Closes stack ts)
    (hbehind : ∀ word specifier rest, behind = word :: specifier :: rest →
      word.isWord "from" = true → specifier.kind ≠ .string) (t : Token) :
    moduleStatement? t (ts ++ keyword :: behind) =
      (moduleStatement? t ts).map fun r => (r.1, r.2 ++ keyword :: behind) := by
  unfold moduleStatement?
  rw [importDeclaration?_append hkeyword behind h,
    exportDeclaration?_append hkeyword behind h hbehind]
  split_ifs <;> rfl

end Statement

namespace Grammar

open Statement

/-- Behind the keyword of an import declaration, `from` does not come with a specifier at once. -/
theorem Import.kind_ne_string (i : Import) {word specifier : Token} {rest ts : List Token}
    (h : i.clauseTokens ++ (i.origin.tokens ++ rest) = word :: specifier :: ts)
    (hword : word.isWord "from" = true) : specifier.kind ≠ .string := by
  obtain ⟨keyword, clause, origin⟩ := i
  cases clause with
  | none =>
    obtain ⟨rfl, -⟩ := List.cons.inj h
    have hkind : origin.specifier.val.kind = .string := origin.specifier.2
    rw [Token.kind_of_isWord hword] at hkind
    cases hkind
  | some f =>
    change f.tokens ++ _ = _ at h
    rw [f.tokens_append] at h
    cases hmodifier : f.modifier with
    | some m =>
      rw [hmodifier] at h
      obtain ⟨rfl, -⟩ := List.cons.inj h
      rw [Token.isWord_of_isWord m.2 (by decide)] at hword
      cases hword
    | none =>
      rw [hmodifier] at h
      rcases f.clause.tokens_cases f.word (origin.tokens ++ rest) with
        ⟨name, second, us, -, hts, hsecond⟩ | ⟨-, t, us, hts, ht⟩
      · have hsecond' : second = specifier := by
          have hsame := hts.symm.trans h
          simp only [List.cons.injEq] at hsame
          exact hsame.2.1
        subst hsecond'
        rcases hsecond with hfrom | hcomma
        · simp [Token.kind_of_isWord hfrom]
        · simp [Token.kind_of_isPunct hcomma]
      · obtain ⟨rfl, -⟩ := List.cons.inj (hts.symm.trans h)
        rcases ht with hstar | hbrace
        · rw [Token.isWord_of_isPunct hstar] at hword
          cases hword
        · rw [Token.isWord_of_isPunct hbrace] at hword
          cases hword

/-- A declaration ends before an import declaration that stands behind it. -/
theorem Import.moduleStatement?_append (i : Import) (rest : List Token) {stack : List Enclosure}
    {ts : List Token} (h : Token.Closes stack ts) (t : Token) :
    Statement.moduleStatement? t (ts ++ (i.tokens ++ rest)) =
      (Statement.moduleStatement? t ts).map fun r => (r.1, r.2 ++ (i.tokens ++ rest)) := by
  rw [i.tokens_append]
  exact Statement.moduleStatement?_append i.keyword.2 _ h
    (fun _ _ _ hbehind => i.kind_ne_string hbehind) t

/-- What the scanner makes of an import declaration. -/
def Import.scanned (i : Import) : Statement where
  kind := .importFrom i.origin.toSpecifier (i.typeOnly && !i.modifiesFrom)
  span := i.keyword.val.span.merge i.origin.semicolon.val.span

/-- In front of an import declaration the scanner collects what it would collect alone. -/
theorem Import.collect_append (i : Import) (rest : List Token) {stack : List Enclosure}
    {ts : List Token} (h : Token.Closes stack ts) {depth : Nat} (hdepth : depth ≤ stack.length)
    {previous : Option Token}
    (hpoint : (ts.getLast?.or previous).any (·.isPunct '.') = false) (pending : Option Span) :
    Statement.collect previous depth pending (ts ++ (i.tokens ++ rest)) =
      Statement.collect previous depth pending ts ++
        i.scanned :: Statement.collect none 0 none rest := by
  induction hlength : ts.length using Nat.strongRecOn generalizing ts stack depth previous pending with
  | _ n ih =>
    subst hlength
    cases ts with
    | nil =>
      -- No bracket is open, so the declaration is recognised.
      have hzero : depth = 0 := by
        rw [h.eq_nil] at hdepth
        exact Nat.le_zero.mp hdepth
      have hprevious : previous.any (·.isPunct '.') = false := hpoint
      rw [List.nil_append, i.tokens_append, hzero, Statement.collect]
      exact collect_of_moduleStatement? (i.moduleStatement? rest) hprevious pending
    | cons t ts =>
      obtain ⟨out, hout, hts⟩ := h.exists_tail
      have hmore : (if depth = 0 ∧ !previous.any (·.isPunct '.') then
          Statement.moduleStatement? t (ts ++ (i.tokens ++ rest)) else none) =
            (if depth = 0 ∧ !previous.any (·.isPunct '.') then
              Statement.moduleStatement? t ts else none).map
                fun r => (r.1, r.2 ++ (i.tokens ++ rest)) := by
        rw [i.moduleStatement?_append rest hts]
        split_ifs <;> rfl
      rw [List.cons_append]
      cases hfound : (if depth = 0 ∧ !previous.any (·.isPunct '.') then
          Statement.moduleStatement? t ts else none) with
      | some r =>
        obtain ⟨s, behind⟩ := r
        rw [hfound] at hmore
        have hstatement : Statement.moduleStatement? t ts = some (s, behind) := by
          split_ifs at hfound
          exact hfound
        obtain ⟨used, last, rfl, -, -⟩ := moduleStatement?_eq_append hstatement
        obtain ⟨out', -, hlast⟩ := Token.Closes.exists_right hts
        obtain ⟨out'', -, hbehind⟩ := hlast.exists_tail
        have hpoint' : (behind.getLast?.or none).any (·.isPunct '.') = false := by
          cases hb : behind.getLast? with
          | none => rfl
          | some u => simpa [List.getLast?_cons, List.getLast?_append, hb] using hpoint
        rw [collect_cons_of_eq_some hmore, collect_cons_of_eq_some hfound,
          ih behind.length (by simp; omega) hbehind (Nat.zero_le _) hpoint' none rfl]
        simp
      | none =>
        rw [hfound] at hmore
        have hpoint' : (ts.getLast?.or (some t)).any (·.isPunct '.') = false := by
          cases ts with
          | nil => exact hpoint
          | cons u us => simpa [List.getLast?_cons] using hpoint
        have hdepth' : depthBehind depth t ≤ out.length := by
          rw [← Token.depthBehind_eq_length hout]
          exact Token.depthBehind_mono hdepth t
        have hrest := fun pending => ih ts.length (by simp) hts hdepth' hpoint' pending rfl
        rw [collect_cons_of_eq_none hmore, collect_cons_of_eq_none hfound, hrest, hrest]
        split_ifs
        · rw [List.append_assoc]
        · rfl

end Grammar

open Grammar

/-- An import declaration at the top level, where the brackets before it are closed and no point stands
in front of it, is scanned as an import of its specifier. The import is one of types only exactly if the
declaration has the modifier, unless the declaration has it and its default binding is called `from`. -/
theorem import_at_top_level {ts before rest : List Token} {i : Import}
    (htokens : Outline.significant ts = before ++ (i.tokens ++ rest))
    (hbefore : Token.BracketsBalanced before)
    (hpoint : before.getLast?.any (·.isPunct '.') = false) :
    (Outline.ofTokens ts).statements =
        Statement.ofTokens before ++ i.scanned :: Statement.ofTokens rest ∧
      i.scanned.imported? = some i.origin.toSpecifier ∧
      (i.scanned.isTypeOnlyImport = i.typeOnly ↔ i.modifiesFrom = false) := by
  refine ⟨?_, rfl, i.seen_eq_typeOnly_iff⟩
  have hcloses : Token.Closes [] before := Delimiter.wellNested_iff.mp hbefore
  show Statement.collect none 0 none (Outline.significant ts) = _
  rw [htokens]
  exact i.collect_append rest hcloses (Nat.zero_le _) (by rwa [Option.or_none]) none

/-- An import of types whose default binding is called like the modifier, between two calls. -/
theorem import_of_type_called_type :
    ∃ (before rest : List Token) (i : Import),
      Outline.significant (Lexed.ofText "f();\nimport type type from './x'; g()").tokens =
        before ++ (i.tokens ++ rest) ∧
      Token.BracketsBalanced before ∧ before.getLast?.any (·.isPunct '.') = false ∧
      i.typeOnly = true ∧ i.scanned.isTypeOnlyImport = true ∧
      (Outline.ofTokens (Lexed.ofText "f();\nimport type type from './x'; g()").tokens).statements =
        [⟨.other, ⟨0, 4⟩⟩, ⟨.importFrom ⟨"'./x'", ⟨27, 32⟩⟩ true, ⟨5, 33⟩⟩, ⟨.other, ⟨34, 37⟩⟩] := by
  refine ⟨[⟨.identifier, ⟨0, 1⟩, "f", none⟩, ⟨.punct, ⟨1, 2⟩, "(", none⟩,
      ⟨.punct, ⟨2, 3⟩, ")", none⟩, ⟨.punct, ⟨3, 4⟩, ";", none⟩],
    [⟨.identifier, ⟨34, 35⟩, "g", none⟩, ⟨.punct, ⟨35, 36⟩, "(", none⟩,
      ⟨.punct, ⟨36, 37⟩, ")", none⟩],
    { keyword := ⟨⟨.identifier, ⟨5, 11⟩, "import", none⟩, rfl⟩
      clause := some
        { modifier := some ⟨⟨.identifier, ⟨12, 16⟩, "type", none⟩, rfl⟩
          clause := .default ⟨⟨.identifier, ⟨17, 21⟩, "type", none⟩, rfl, rfl, rfl⟩
          word := ⟨⟨.identifier, ⟨22, 26⟩, "from", none⟩, rfl⟩ }
      origin :=
        { specifier := ⟨⟨.string, ⟨27, 32⟩, "'./x'", none⟩, rfl⟩
          attributes := none
          semicolon := ⟨⟨.punct, ⟨32, 33⟩, ";", none⟩, rfl⟩ } }, ?_⟩
  refine ⟨?tokens, ?closed, ?point, rfl, (import_at_top_level ?tokens ?closed ?point).2.2.mpr rfl,
    (import_at_top_level ?tokens ?closed ?point).1.trans ?_⟩
  case tokens => decide +kernel
  case closed => decide +kernel
  case point => rfl
  decide +kernel

/-- Behind a call too, the modifier of an import of types is lost if its default binding is called
`from`. -/
theorem import_of_type_called_from :
    ∃ (before : List Token) (i : Import),
      Outline.significant (Lexed.ofText "f();\nimport type from from './x';").tokens =
        before ++ (i.tokens ++ []) ∧
      Token.BracketsBalanced before ∧ before.getLast?.any (·.isPunct '.') = false ∧
      i.typeOnly = true ∧
      (Outline.ofTokens (Lexed.ofText "f();\nimport type from from './x';").tokens).statements =
        [⟨.other, ⟨0, 4⟩⟩, ⟨.importFrom ⟨"'./x'", ⟨27, 32⟩⟩ false, ⟨5, 33⟩⟩] := by
  refine ⟨[⟨.identifier, ⟨0, 1⟩, "f", none⟩, ⟨.punct, ⟨1, 2⟩, "(", none⟩,
      ⟨.punct, ⟨2, 3⟩, ")", none⟩, ⟨.punct, ⟨3, 4⟩, ";", none⟩],
    { keyword := ⟨⟨.identifier, ⟨5, 11⟩, "import", none⟩, rfl⟩
      clause := some
        { modifier := some ⟨⟨.identifier, ⟨12, 16⟩, "type", none⟩, rfl⟩
          clause := .default ⟨⟨.identifier, ⟨17, 21⟩, "from", none⟩, rfl, rfl, rfl⟩
          word := ⟨⟨.identifier, ⟨22, 26⟩, "from", none⟩, rfl⟩ }
      origin :=
        { specifier := ⟨⟨.string, ⟨27, 32⟩, "'./x'", none⟩, rfl⟩
          attributes := none
          semicolon := ⟨⟨.punct, ⟨32, 33⟩, ";", none⟩, rfl⟩ } },
    by decide +kernel, by decide +kernel, rfl, rfl, by decide +kernel⟩

end ModuleBuild
