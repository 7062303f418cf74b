import ModuleBuild.Proofs.Outline.Grammar

/-!
# Recognising declarations

Each reader of the scanner is followed over the part of the grammar that it reads, with arbitrary
tokens behind that part: what it does there depends on that part only. Together they recognise
every import declaration and every re-export as a whole.

Main statements: `Import.moduleStatement?` and `Reexport.moduleStatement?`.
-/

namespace ModuleBuild

open Statement

namespace Token

variable {t : Token} {c d : Char} {v w : String}

/-! ## Telling tokens apart -/

theorem kind_of_isWord (h : t.isWord w = true) : t.kind = .identifier := by
  simp only [isWord, Bool.and_eq_true, decide_eq_true_eq] at h
  exact h.1

theorem isPunct_of_kind (h : t.kind ≠ .punct) : t.isPunct c = false := by
  simp [isPunct, h]

theorem isPunct_of_isWord (h : t.isWord w = true) : t.isPunct c = false :=
  isPunct_of_kind (by rw [kind_of_isWord h]; decide)

theorem isWord_of_isWord (h : t.isWord v = true) (hne : v ≠ w) : t.isWord w = false := by
  simp only [isWord, Bool.and_eq_true, decide_eq_true_eq] at h
  simp [isWord, h.2, hne]

theorem kind_of_isPunct (h : t.isPunct c = true) : t.kind = .punct := by
  simp only [isPunct, Bool.and_eq_true, decide_eq_true_eq] at h
  exact h.1

theorem isWord_of_kind (h : t.kind ≠ .identifier) : t.isWord w = false := by
  simp [isWord, h]

theorem isWord_of_isPunct (h : t.isPunct c = true) : t.isWord w = false :=
  isWord_of_kind (by rw [kind_of_isPunct h]; decide)

theorem isPunct_of_isPunct (h : t.isPunct c = true) (hne : c ≠ d) : t.isPunct d = false := by
  simp only [isPunct, Bool.and_eq_true, decide_eq_true_eq] at h
  simp [isPunct, h.2, hne]

/-! ## Braces -/

/-- Looking for a closing brace passes over tokens whose braces are closed. -/
theorem BracesBalanced.closingBrace? {ts : List Token} (h : BracesBalanced ts) (n : Nat)
    (rest : List Token) :
    Statement.closingBrace? (n + 1) (ts ++ rest) = Statement.closingBrace? (n + 1) rest := by
  induction h generalizing n rest with
  | nil => rfl
  | other ho hc _ ih =>
    rw [List.cons_append, Statement.closingBrace?, ho, hc]
    exact ih n rest
  | @block opener closer inner ts ho hc _ _ ihinner ihts =>
    rw [List.cons_append, List.append_assoc, Statement.closingBrace?, ho, if_pos rfl, ihinner,
      List.cons_append, Statement.closingBrace?, isPunct_of_isPunct hc (by decide), hc]
    simpa using ihts n rest

/-- Looking for a specifier passes over tokens between braces whose braces are closed. -/
theorem BracesBalanced.importSpecifier? {ts : List Token} (h : BracesBalanced ts) (n : Nat)
    (before : Option Token) (rest : List Token) :
    ∃ before', Statement.importSpecifier? before (n + 1) (ts ++ rest) =
      Statement.importSpecifier? before' (n + 1) rest := by
  induction h generalizing n before rest with
  | nil => exact ⟨before, rfl⟩
  | @other t _ ho hc _ ih =>
    obtain ⟨before', hrest⟩ := ih n (some t) rest
    refine ⟨before', ?_⟩
    rw [List.cons_append, Statement.importSpecifier?, ho, hc]
    simpa using hrest
  | @block opener closer inner ts ho hc _ _ ihinner ihts =>
    obtain ⟨b₁, h₁⟩ := ihinner (n + 1) (some opener) (closer :: ts ++ rest)
    obtain ⟨b₂, h₂⟩ := ihts n (some closer) rest
    refine ⟨b₂, ?_⟩
    rw [List.cons_append, List.append_assoc, Statement.importSpecifier?, ho]
    simp only [Nat.add_eq_zero_iff, Nat.one_ne_zero, and_false, decide_false, Bool.false_and,
      Bool.false_eq_true, if_false, if_true]
    rw [h₁, List.cons_append, Statement.importSpecifier?, isPunct_of_isPunct hc (by decide), hc]
    simpa using h₂

end Token

namespace Grammar

variable {before : Option Token} {rest : List Token}

theorem Block.closingBrace? (b : Block) (rest : List Token) :
    Statement.closingBrace? 1 (b.inner ++ b.closer.val :: rest) = some (b.closer.val, rest) := by
  have hopen : b.closer.val.isPunct '{' = false := Token.isPunct_of_isPunct b.closer.2 (by decide)
  rw [b.balanced.closingBrace? 0, Statement.closingBrace?, hopen, b.closer.2]
  simp

theorem Block.importSpecifier? (b : Block) (before : Option Token) (rest : List Token) :
    Statement.importSpecifier? before 0 (b.tokens ++ rest) =
      Statement.importSpecifier? (some b.closer.val) 0 rest := by
  have hkind := Token.kind_of_isPunct b.opener.2
  have hclose : b.closer.val.isPunct '{' = false := Token.isPunct_of_isPunct b.closer.2 (by decide)
  obtain ⟨before', hinner⟩ :=
    b.balanced.importSpecifier? 0 (some b.opener.val) (b.closer.val :: rest)
  rw [Block.tokens, List.cons_append, Statement.importSpecifier?, b.opener.2, hkind,
    List.append_assoc]
  simp only [reduceCtorEq, decide_false, Bool.and_false, Bool.false_eq_true, if_false, if_true]
  rw [List.singleton_append, hinner, Statement.importSpecifier?, hclose, b.closer.2]
  simp

/-! ## Finding the specifier -/

/-- A token outside braces that can stand before the specifier of an import. -/
structure Plain (t : Token) : Prop where
  kind : t.kind ≠ .string
  opener : t.isPunct '{' = false
  closer : t.isPunct '}' = false
  semicolon : t.isPunct ';' = false
  no_import : t.isWord "import" = false
  no_export : t.isWord "export" = false

theorem Plain.importSpecifier? {t : Token} (h : Plain t) (before : Option Token)
    (rest : List Token) :
    Statement.importSpecifier? before 0 (t :: rest) =
      Statement.importSpecifier? (some t) 0 rest := by
  rw [Statement.importSpecifier?, h.opener, h.closer, h.semicolon, h.no_import, h.no_export]
  simp [h.kind]

theorem plain_of_identifier {t : Token} (hkind : t.kind = .identifier)
    (hi : t.isWord "import" = false) (he : t.isWord "export" = false) : Plain t := by
  have hne : t.kind ≠ .punct := by
    rw [hkind]
    decide
  have hpunct : ∀ c, t.isPunct c = false := fun _ => Token.isPunct_of_kind hne
  refine ⟨?_, hpunct _, hpunct _, hpunct _, hi, he⟩
  rw [hkind]
  decide

theorem plain_of_binding (name : Binding) : Plain name.val :=
  plain_of_identifier name.2.1 name.2.2.1 name.2.2.2

theorem plain_of_word {w : String} (word : Word w) (hi : w ≠ "import") (he : w ≠ "export") :
    Plain word.val :=
  plain_of_identifier (Token.kind_of_isWord word.2) (Token.isWord_of_isWord word.2 hi)
    (Token.isWord_of_isWord word.2 he)

theorem plain_of_punct {c : Char} (mark : Punct c) (ho : c ≠ '{') (hc : c ≠ '}') (hs : c ≠ ';') :
    Plain mark.val := by
  refine ⟨?_, Token.isPunct_of_isPunct mark.2 ho, Token.isPunct_of_isPunct mark.2 hc,
    Token.isPunct_of_isPunct mark.2 hs, Token.isWord_of_isPunct mark.2,
    Token.isWord_of_isPunct mark.2⟩
  rw [Token.kind_of_isPunct mark.2]
  decide

theorem Bindings.importSpecifier? (bs : Bindings) (before : Option Token) (rest : List Token) :
    ∃ before', Statement.importSpecifier? before 0 (bs.tokens ++ rest) =
      Statement.importSpecifier? before' 0 rest := by
  cases bs with
  | whole star word name =>
    refine ⟨some name.val, ?_⟩
    show Statement.importSpecifier? before 0 (star.val :: word.val :: name.val :: rest) = _
    rw [(plain_of_punct star (by decide) (by decide) (by decide)).importSpecifier?,
      (plain_of_word word (by decide) (by decide)).importSpecifier?,
      (plain_of_binding name).importSpecifier?]
  | named names => exact ⟨some names.closer.val, names.importSpecifier? before rest⟩

theorem Clause.importSpecifier? (c : Clause) (before : Option Token) (rest : List Token) :
    ∃ before', Statement.importSpecifier? before 0 (c.tokens ++ rest) =
      Statement.importSpecifier? before' 0 rest := by
  cases c with
  | default name => exact ⟨some name.val, (plain_of_binding name).importSpecifier? before rest⟩
  | bindings bs => exact bs.importSpecifier? before rest
  | both name comma bs =>
    obtain ⟨before', hbs⟩ := bs.importSpecifier? (some comma.val) rest
    refine ⟨before', ?_⟩
    show Statement.importSpecifier? before 0 (name.val :: comma.val :: (bs.tokens ++ rest)) = _
    rw [(plain_of_binding name).importSpecifier?,
      (plain_of_punct comma (by decide) (by decide) (by decide)).importSpecifier?, hbs]

theorem FromClause.importSpecifier? (f : FromClause) (before : Option Token) (rest : List Token) :
    Statement.importSpecifier? before 0 (f.tokens ++ rest) =
      Statement.importSpecifier? (some f.word.val) 0 rest := by
  have hword := plain_of_word f.word (by decide) (by decide)
  obtain ⟨modifier, clause, word⟩ := f
  cases modifier with
  | none =>
    obtain ⟨before', hclause⟩ := clause.importSpecifier? before (word.val :: rest)
    rw [FromClause.tokens, List.append_assoc]
    exact hclause.trans (hword.importSpecifier? before' rest)
  | some m =>
    have hm := plain_of_word m (by decide) (by decide)
    obtain ⟨before', hclause⟩ := clause.importSpecifier? (some m.val) (word.val :: rest)
    rw [FromClause.tokens, List.append_assoc]
    show Statement.importSpecifier? before 0 (m.val :: (clause.tokens ++ word.val :: rest)) = _
    rw [hm.importSpecifier?]
    exact hclause.trans (hword.importSpecifier? before' rest)

/-- The specifier of an import declaration is found, and behind `from` if there is a clause. -/
theorem Import.importSpecifier? (i : Import) (rest : List Token) :
    Statement.importSpecifier? none 0 (i.clauseTokens ++ (i.origin.tokens ++ rest)) =
      some (i.clause.map (·.word.val), i.origin.specifier.val,
        i.origin.attributeTokens ++ i.origin.semicolon.val :: rest) := by
  have hfound : ∀ before, Statement.importSpecifier? before 0 (i.origin.tokens ++ rest) =
      some (before, i.origin.specifier.val,
        i.origin.attributeTokens ++ i.origin.semicolon.val :: rest) := by
    intro before
    rw [Origin.tokens, List.cons_append, Statement.importSpecifier?, i.origin.specifier.2]
    simp
  obtain ⟨keyword, clause, origin⟩ := i
  cases clause with
  | none => exact hfound none
  | some f =>
    show Statement.importSpecifier? none 0 (f.tokens ++ (origin.tokens ++ rest)) = _
    rw [f.importSpecifier?, hfound]
    rfl

/-! ## The end of a declaration -/

/-- A declaration ends with its semicolon. -/
theorem Origin.finish (o : Origin) (rest : List Token) :
    Statement.finish o.specifier.val (o.attributeTokens ++ o.semicolon.val :: rest) =
      (o.semicolon.val, rest) := by
  have hsemicolon := o.semicolon.2
  obtain ⟨specifier, attributes, semicolon⟩ := o
  cases attributes with
  | none =>
    have hno : Statement.attributes? (semicolon.val :: rest) = none := by
      cases rest with
      | nil => rfl
      | cons t ts =>
        simp [Statement.attributes?, Token.isWord_of_isPunct semicolon.2]
    show Statement.finish specifier.val (semicolon.val :: rest) = _
    simp [Statement.finish, hno, hsemicolon]
  | some a =>
    have ha : Statement.attributes? (a.tokens ++ semicolon.val :: rest) =
        some (a.block.closer.val, semicolon.val :: rest) := by
      have hclose := a.block.closingBrace? (semicolon.val :: rest)
      rw [Attributes.tokens, Block.tokens, List.cons_append, List.cons_append, List.append_assoc,
        List.singleton_append, Statement.attributes?, hclose, a.block.opener.2]
      simp [a.word.2]
    show Statement.finish specifier.val (a.tokens ++ semicolon.val :: rest) = _
    simp [Statement.finish, ha, hsemicolon]

/-! ## The modifier -/

/-- A clause and the word behind it begin with the default binding, which `from` or a comma follows, or
with a star or a brace. -/
theorem Clause.tokens_cases (c : Clause) (word : Word "from") (rest : List Token) :
    (∃ name second ts, c.defaultName? = some name ∧
        c.tokens ++ word.val :: rest = name.val :: second :: ts ∧
        (second.isWord "from" = true ∨ second.isPunct ',' = true)) ∨
      (c.defaultName? = none ∧ ∃ t ts, c.tokens ++ word.val :: rest = t :: ts ∧
        (t.isPunct '*' = true ∨ t.isPunct '\x7b' = true)) := by
  cases c with
  | default name => exact Or.inl ⟨name, word.val, rest, rfl, rfl, Or.inl word.2⟩
  | both name comma bs => exact Or.inl ⟨name, comma.val, _, rfl, rfl, Or.inr comma.2⟩
  | bindings bs =>
    cases bs with
    | whole star as name => exact Or.inr ⟨rfl, star.val, _, rfl, Or.inl star.2⟩
    | named names => exact Or.inr ⟨rfl, names.opener.val, _, rfl, Or.inr names.opener.2⟩

theorem FromClause.tokens_append (f : FromClause) (rest : List Token) :
    f.tokens ++ rest =
      (f.modifier.map (·.val)).toList ++ (f.clause.tokens ++ f.word.val :: rest) := by
  simp [FromClause.tokens]

theorem Import.tokens_append (i : Import) (rest : List Token) :
    i.tokens ++ rest = i.keyword.val :: (i.clauseTokens ++ (i.origin.tokens ++ rest)) := by
  simp [Import.tokens]

/-- The modifier is seen unless the name `from` follows it. -/
theorem FromClause.hasTypeModifier (f : FromClause) (rest : List Token) :
    Statement.hasTypeModifier (f.tokens ++ rest) = (f.modifier.isSome && !f.bindsFrom) := by
  rw [f.tokens_append, FromClause.bindsFrom]
  obtain ⟨modifier, clause, word⟩ := f
  rcases clause.tokens_cases word rest with
    ⟨name, second, ts, hname, hts, hsecond⟩ | ⟨hname, t, ts, hts, ht⟩
  · have hpunct : ∀ c, name.val.isPunct c = false :=
      fun _ => Token.isPunct_of_kind (by rw [name.2.1]; decide)
    cases modifier with
    | some m => simp [Statement.hasTypeModifier, hts, hname, m.2, name.2.1, hpunct]
    | none =>
      have hno : ¬(second.isPunct '{' = true ∨ second.isPunct '*' = true ∨
          second.kind = .identifier ∧ second.isWord "from" = false) := by
        rcases hsecond with hfrom | hcomma
        · simp [Token.isPunct_of_isWord hfrom, hfrom]
        · simp [Token.isPunct_of_isPunct hcomma, Token.kind_of_isPunct hcomma]
      simp only [Statement.hasTypeModifier, hts, Option.map_none, Option.toList_none,
        List.nil_append, Option.isSome_none, Bool.false_and]
      simp_all
  · have hword : ∀ w, t.isWord w = false := fun _ => by
      rcases ht with h | h <;> exact Token.isWord_of_isPunct h
    cases modifier with
    | some m => rcases ht with h | h <;> simp [Statement.hasTypeModifier, hts, hname, m.2, h]
    | none =>
      cases ts <;> simp [Statement.hasTypeModifier, hts, hword]

theorem Import.hasTypeModifier (i : Import) (rest : List Token) :
    Statement.hasTypeModifier (i.clauseTokens ++ (i.origin.tokens ++ rest)) =
      (i.typeOnly && !i.modifiesFrom) := by
  obtain ⟨keyword, clause, origin⟩ := i
  cases clause with
  | none =>
    have hkind : ∀ w, origin.specifier.val.isWord w = false :=
      fun _ => Token.isWord_of_kind (by rw [origin.specifier.2]; decide)
    show Statement.hasTypeModifier (origin.specifier.val :: _) = false
    unfold Statement.hasTypeModifier
    split <;> simp_all
  | some f =>
    show Statement.hasTypeModifier (f.tokens ++ _) = _
    rw [f.hasTypeModifier]
    cases hm : f.modifier <;> simp [Import.typeOnly, Import.modifiesFrom, hm]

/-! ## Import declarations -/

theorem Clause.not_isAssignment (c : Clause) (word : Word "from") (rest : List Token) :
    isAssignment (c.tokens ++ word.val :: rest) = false := by
  rcases c.tokens_cases word rest with ⟨name, second, ts, -, hts, hsecond⟩ | ⟨-, t, ts, hts, ht⟩
  · have hequals : second.isPunct '=' = false := by
      rcases hsecond with h | h
      · exact Token.isPunct_of_isWord h
      · exact Token.isPunct_of_isPunct h (by decide)
    simp [hts, isAssignment, hequals]
  · have hkind : t.kind = .punct := by
      rcases ht with h | h <;> exact Token.kind_of_isPunct h
    rw [hts]
    cases ts <;> simp [isAssignment, hkind]

/-- A clause is not taken for a name and an equals sign, whether its modifier is seen or not. -/
theorem FromClause.not_isAssignment (f : FromClause) (rest : List Token) :
    isAssignment (dropTypeModifier (f.tokens ++ rest)) = false := by
  have hclause := f.clause.not_isAssignment f.word rest
  rw [dropTypeModifier, f.hasTypeModifier, f.tokens_append]
  cases f.modifier with
  | none => exact hclause
  | some m =>
    cases f.bindsFrom with
    | false => exact hclause
    | true =>
      show isAssignment (m.val :: (f.clause.tokens ++ f.word.val :: rest)) = false
      rcases f.clause.tokens_cases f.word rest with
        ⟨name, second, ts, -, hts, -⟩ | ⟨-, t, ts, hts, ht⟩
      · have hequals : name.val.isPunct '=' = false :=
          Token.isPunct_of_kind (by rw [name.2.1]; decide)
        simp [hts, isAssignment, hequals]
      · have hequals : t.isPunct '=' = false := by
          rcases ht with h | h <;> exact Token.isPunct_of_isPunct h (by decide)
        simp [hts, isAssignment, hequals]

theorem FromClause.not_continuesImport (f : FromClause) (rest : List Token) :
    continuesImport (f.tokens ++ rest).head? = false := by
  rw [f.tokens_append]
  cases f.modifier with
  | some m =>
    show continuesImport (some m.val) = false
    simp [continuesImport, Token.isPunct_of_isWord m.2]
  | none =>
    show continuesImport (f.clause.tokens ++ f.word.val :: rest).head? = false
    rcases f.clause.tokens_cases f.word rest with
      ⟨name, second, ts, -, hts, -⟩ | ⟨-, t, ts, hts, ht⟩
    · have hkind : ∀ c, name.val.isPunct c = false :=
        fun _ => Token.isPunct_of_kind (by rw [name.2.1]; decide)
      simp [hts, continuesImport, hkind]
    · have hround : t.isPunct '(' = false := by
        rcases ht with h | h <;> exact Token.isPunct_of_isPunct h (by decide)
      have hpoint : t.isPunct '.' = false := by
        rcases ht with h | h <;> exact Token.isPunct_of_isPunct h (by decide)
      simp [hts, continuesImport, hround, hpoint]

/-- An import declaration is not taken for an expression or for one with an equals sign. -/
theorem Import.not_expression (i : Import) (rest : List Token) :
    continuesImport (i.clauseTokens ++ (i.origin.tokens ++ rest)).head? = false ∧
      isAssignment (dropTypeModifier (i.clauseTokens ++ (i.origin.tokens ++ rest))) = false := by
  have hmodifier := i.hasTypeModifier rest
  obtain ⟨keyword, clause, origin⟩ := i
  cases clause with
  | none =>
    have hkind : origin.specifier.val.kind = .string := origin.specifier.2
    have hpunct : ∀ c, origin.specifier.val.isPunct c = false :=
      fun _ => Token.isPunct_of_kind (by rw [hkind]; decide)
    rw [dropTypeModifier, hmodifier]
    constructor
    · show continuesImport (some origin.specifier.val) = false
      simp [continuesImport, hpunct]
    · show isAssignment (origin.specifier.val :: _) = false
      unfold isAssignment
      split <;> simp_all
  | some f => exact ⟨f.not_continuesImport _, f.not_isAssignment _⟩

/-- An import declaration is recognised as a whole. -/
theorem Import.moduleStatement? (i : Import) (rest : List Token) :
    Statement.moduleStatement? i.keyword.val (i.clauseTokens ++ (i.origin.tokens ++ rest)) =
      some (⟨.importFrom i.origin.toSpecifier (i.typeOnly && !i.modifiesFrom),
        i.keyword.val.span.merge i.origin.semicolon.val.span⟩, rest) := by
  obtain ⟨hcontinues, hassignment⟩ := i.not_expression rest
  have hnext : ((i.clauseTokens ++ (i.origin.tokens ++ rest)).head?.any
      fun t => t.isPunct '(' || t.isPunct '.') = false := hcontinues
  have hfrom : ((i.clause.map (·.word.val)).any fun t => !t.isWord "from") = false := by
    cases hc : i.clause with
    | none => rfl
    | some f => simp [f.word.2]
  rw [Statement.moduleStatement?, i.keyword.2, if_pos rfl, importDeclaration?, hnext,
    hassignment, i.importSpecifier?, i.hasTypeModifier]
  simp [hfrom, i.origin.finish, Origin.toSpecifier]

/-! ## Re-exports -/

theorem Reexport.exportClause? (e : Reexport) (rest : List Token) :
    Statement.exportClause? (e.clause.tokens ++ e.word.val :: rest) = some (e.word.val :: rest) := by
  obtain ⟨keyword, modifier, clause, word, origin⟩ := e
  have has : word.val.isWord "as" = false := Token.isWord_of_isWord word.2 (by decide)
  cases clause with
  | all star =>
    show Statement.exportClause? (star.val :: word.val :: rest) = _
    simp [Statement.exportClause?, star.2, has]
  | whole star as name =>
    show Statement.exportClause? (star.val :: as.val :: name :: word.val :: rest) = _
    simp [Statement.exportClause?, star.2, as.2]
  | named names =>
    have hstar : names.opener.val.isPunct '*' = false :=
      Token.isPunct_of_isPunct names.opener.2 (by decide)
    have hclose := names.closingBrace? (word.val :: rest)
    rw [ExportClause.tokens, Block.tokens, List.cons_append, List.append_assoc,
      List.singleton_append, Statement.exportClause?, hclose, hstar, names.opener.2]
    rfl

/-- A re-export is recognised as a whole. -/
theorem Reexport.moduleStatement? (e : Reexport) (rest : List Token) :
    Statement.moduleStatement? e.keyword.val (e.clauseTokens ++ (e.origin.tokens ++ rest)) =
      some (⟨.exportFrom e.origin.toSpecifier,
        e.keyword.val.span.merge e.origin.semicolon.val.span⟩, rest) := by
  have himport : e.keyword.val.isWord "import" = false :=
    Token.isWord_of_isWord e.keyword.2 (by decide)
  have hclause := e.exportClause? (e.origin.tokens ++ rest)
  have hword : e.word.val.isWord "from" = true := e.word.2
  have hspecifier : e.origin.specifier.val.kind = .string := e.origin.specifier.2
  have hfinish := e.origin.finish rest
  -- The modifier is dropped, and without one the clause does not begin with a word.
  have hdrop : (if (e.clauseTokens ++ (e.origin.tokens ++ rest)).head?.any (·.isWord "type")
      then (e.clauseTokens ++ (e.origin.tokens ++ rest)).tail
      else e.clauseTokens ++ (e.origin.tokens ++ rest)) =
        e.clause.tokens ++ e.word.val :: (e.origin.tokens ++ rest) := by
    obtain ⟨keyword, modifier, clause, word, origin⟩ := e
    cases modifier with
    | some m => simp [Reexport.clauseTokens, m.2]
    | none =>
      cases clause with
      | all star | whole star as name =>
        simp [Reexport.clauseTokens, ExportClause.tokens, Token.isWord_of_isPunct star.2]
      | named names =>
        simp [Reexport.clauseTokens, ExportClause.tokens, Block.tokens,
          Token.isWord_of_isPunct names.opener.2]
  rw [Statement.moduleStatement?, himport, e.keyword.2, exportDeclaration?, hdrop, hclause,
    Origin.tokens]
  simp [hword, hspecifier, hfinish, Origin.toSpecifier]

end Grammar

end ModuleBuild
