import ModuleBuild.Proofs.Outline.Declarations
import ModuleBuild.Proofs.Outline.Extents
import ModuleBuild.Token.Lexer

/-!
# Scanning a module

Scanning the tokens of a module gives one statement for each of its items. Inside a run of other code
the scanner counts the open brackets and extends the run, and its state is told by the tokens that it
has behind it; at the end of an item it is back where it began, so the items follow by induction.

Main statements: `statements_ofTokens_iff`, by which the statements are those of the items unless a
type-only import has a default binding called `from`; and `modifier_before_from_is_lost`, which shows
such an import.
-/

namespace ModuleBuild

open Delimiter Statement

namespace Token

/-! ## Depth and extent -/

/-- The scanner counts the brackets that are open. -/
theorem depthBehind_eq_length {t : Token} {stack out : List Enclosure}
    (h : run? stack (brackets t.delimiters) = some out) :
    depthBehind stack.length t = out.length := by
  unfold depthBehind
  cases hc : t.punctChar? with
  | none =>
    have ho : t.opens? = none := by simp [opens?, hc]
    have hcl : t.closes? = none := by simp [closes?, hc]
    rw [brackets_delimiters_of_neither ho hcl, run?_nil, Option.some.injEq] at h
    rw [h]
  | some c =>
    have ho : t.opens? = Bracket.ofOpener? c := by simp [opens?, hc]
    have hcl : t.closes? = Bracket.ofCloser? c := by simp [closes?, hc]
    rcases Bracket.cases_of_char c with ⟨b, rfl⟩ | ⟨b, rfl⟩ | ⟨hno, hnc⟩
    · have hb : t.opens? = some b := by
        rw [ho]
        cases b <;> rfl
      rw [brackets_delimiters_of_opens? hb, run?_opening, run?_nil, Option.some.injEq] at h
      rw [← h]
      cases b <;> rfl
    · have hb : t.closes? = some b := by
        rw [hcl]
        cases b <;> rfl
      have hn : t.opens? = none := by
        rw [ho]
        cases b <;> rfl
      rw [brackets_delimiters_of_closes? hn hb] at h
      obtain ⟨rest, rfl, hrest⟩ := eq_cons_of_run?_closing h
      rw [run?_nil, Option.some.injEq] at hrest
      rw [← hrest]
      cases b <;> rfl
    · rw [brackets_delimiters_of_neither (ho.trans hno) (hcl.trans hnc), run?_nil,
        Option.some.injEq] at h
      have hopen : ¬(c = '(' ∨ c = '[' ∨ c = '{') := by
        rintro (rfl | rfl | rfl) <;> cases hno
      have hclose : ¬(c = ')' ∨ c = ']' ∨ c = '}') := by
        rintro (rfl | rfl | rfl) <;> cases hnc
      simp [hopen, hclose, h]

theorem Increasing.left {ts us : List Token} (h : Increasing (ts ++ us)) : Increasing ts :=
  ⟨fun t ht => h.start_le_stop t (List.mem_append_left _ ht), (List.pairwise_append.mp h.apart).1⟩

theorem Increasing.right {ts us : List Token} (h : Increasing (ts ++ us)) : Increasing us :=
  ⟨fun t ht => h.start_le_stop t (List.mem_append_right _ ht),
    (List.pairwise_append.mp h.apart).2.1⟩

/-- The first and the last of several tokens reach as far as all of them. -/
theorem Increasing.merge_first_last {first last : Token} {ts : List Token}
    (h : Increasing (first :: (ts ++ [last]))) :
    first.span.merge last.span = extent (first :: (ts ++ [last])) := by
  have hfirst := h.start_le_stop first (List.mem_cons_self ..)
  have hlast := h.start_le_stop last (by simp)
  have hapart := (List.pairwise_cons.mp h.apart).1 last (by simp)
  have hget : (first :: (ts ++ [last])).getLast? = some last := by
    rw [← List.cons_append, List.getLast?_concat]
  rw [extent, hget, Span.merge, Nat.min_eq_left (by omega), Nat.max_eq_right (by omega)]
  rfl

/-- One more token behind several extends them. -/
theorem Increasing.merge_extent {ts : List Token} {t : Token} (h : Increasing (ts ++ [t]))
    (hne : ts ≠ []) : (extent ts).merge t.span = extent (ts ++ [t]) := by
  cases ts with
  | nil => exact absurd rfl hne
  | cons first ts =>
    rw [List.cons_append] at h ⊢
    rw [← h.merge_first_last]
    have hall := (List.pairwise_append.mp (by rw [← List.cons_append] at h; exact h.apart)).2.2
    have hfirst : first.span.start ≤ first.span.stop :=
      h.start_le_stop first (List.mem_cons_self ..)
    have ht : t.span.start ≤ t.span.stop := h.start_le_stop t (by simp)
    obtain ⟨last, hlast⟩ : ∃ last, (first :: ts).getLast? = some last :=
      ⟨_, List.getLast?_eq_some_getLast (by simp)⟩
    have hbefore := hall last (List.mem_of_getLast? hlast) t (by simp)
    have hbehind := hall first (List.mem_cons_self ..) t (by simp)
    rw [extent, hlast, Span.merge, Span.merge]
    simp only [List.head?_cons, Option.map_some, Option.getD_some]
    rw [Nat.max_eq_right (by omega), Nat.max_eq_right (by omega)]

end Token

namespace Grammar

/-! ## Runs of other code -/

/-- Where a token of a run stands outside all brackets, it ends the run exactly if it is the last. -/
theorem Run.endsRun_iff {r : Run} {as bs : List Token} {t : Token} (h : r.tokens = as ++ t :: bs)
    (hbalanced : Token.BracketsBalanced (as ++ [t])) : t.endsRun = true ↔ bs = [] := by
  obtain ⟨tokens, _, _, hends, _, _⟩ := r
  subst h
  have htake : (as ++ t :: bs).take (as.length + 1) = as ++ [t] := by
    rw [List.take_length_add_append]
    rfl
  have hiff := hends as.length (by simp) (by rwa [htake])
  have hlast : as.length + 1 = (as ++ t :: bs).length ↔ bs = [] := by
    rw [List.length_append, List.length_cons, ← List.length_eq_zero_iff]
    omega
  rw [← hlast]
  simpa using hiff

/-- No declaration begins in a run. -/
theorem Run.moduleStatement?_eq_none {r : Run} {as bs : List Token} {t : Token}
    (h : r.tokens = as ++ t :: bs) (hbalanced : Token.BracketsBalanced as)
    (hpoint : as.getLast?.any (·.isPunct '.') = false) (rest : List Token) :
    Statement.moduleStatement? t (bs ++ rest) = none := by
  have hlast : bs = [] → t.endsRun = true := by
    rintro rfl
    exact (r.endsRun_iff h (h ▸ r.balanced)).mpr rfl
  obtain ⟨tokens, _, _, _, himport, hexport⟩ := r
  subst h
  have hnext : (as ++ t :: bs)[as.length + 1]? = bs.head? := by
    cases bs <;> simp
  have hi := himport as.length (by simp) (by simpa using hbalanced) (by simpa using hpoint)
  have he := hexport as.length (by simp) (by simpa using hbalanced) (by simpa using hpoint)
  rw [hnext, List.getElem_append_right (Nat.le_refl _)] at hi he
  simp only [Nat.sub_self, List.getElem_cons_zero] at hi he
  rw [Statement.moduleStatement?]
  by_cases hti : t.isWord "import" = true
  · -- The next token shows that the word is part of an expression.
    have hcontinues := hi hti
    cases bs with
    | nil => simp [continuesImport] at hcontinues
    | cons u us =>
      rw [if_pos hti, importDeclaration?, if_pos]
      exact hcontinues
  · rw [if_neg hti]
    by_cases hte : t.isWord "export" = true
    · rw [if_pos hte]
      have hbegins := he hte
      cases bs with
      | nil =>
        have hends := hlast rfl
        simp [Token.endsRun, Token.isPunct_of_isWord hte] at hends
      | cons u us =>
        have hno : u.isWord "type" = false ∧ u.isPunct '*' = false ∧ u.isPunct '{' = false := by
          simpa [beginsReexport, and_assoc] using hbegins
        obtain ⟨htype, hstar, hbrace⟩ := hno
        simp [exportDeclaration?, Statement.exportClause?, htype, hstar, hbrace]
    · rw [if_neg hte]

/-- The part of a run that the scanner has behind it. -/
def pendingSpan (ts : List Token) : Option Span := if ts = [] then none else some (Token.extent ts)

theorem merge_pendingSpan {as : List Token} {t : Token} (h : Token.Increasing (as ++ [t])) :
    ((pendingSpan as).map (·.merge t.span)).getD t.span = Token.extent (as ++ [t]) := by
  by_cases hnil : as = []
  · subst hnil
    rfl
  · simp [pendingSpan, hnil, h.merge_extent hnil]

/-- Inside a run no token closes a bracket that is not open, and the scanner counts those that are. -/
theorem Run.exists_run?_append {r : Run} {as bs : List Token} {t : Token}
    (h : r.tokens = (as ++ [t]) ++ bs) {stack : List Enclosure}
    (hstack : run? [] (brackets (Delimiter.ofTokens as)) = some stack) :
    ∃ stack', run? [] (brackets (Delimiter.ofTokens (as ++ [t]))) = some stack' ∧
      depthBehind stack.length t = stack'.length := by
  have hall := wellNested_iff.mp r.balanced
  rw [h, Delimiter.ofTokens, List.flatMap_append, brackets_append] at hall
  obtain ⟨stack', hstack', -⟩ := run?_append_eq_some hall
  refine ⟨stack', hstack', Token.depthBehind_eq_length ?_⟩
  have happ : brackets (Delimiter.ofTokens (as ++ [t])) =
      brackets (Delimiter.ofTokens as) ++ brackets t.delimiters := by
    simp [Delimiter.ofTokens]
  rw [← Delimiter.ofTokens, happ, run?_append, hstack, Option.bind_some] at hstack'
  exact hstack'

/-- Behind the first tokens of a run, the scanner goes on to its end. -/
theorem Run.collect {r : Run} {as bs : List Token} (h : r.tokens = as ++ bs) (hbs : bs ≠ [])
    (hspans : Token.Increasing r.tokens) {stack : List Enclosure}
    (hstack : run? [] (brackets (Delimiter.ofTokens as)) = some stack) {previous : Option Token}
    (hprevious : previous.any (·.isPunct '.') = as.getLast?.any (·.isPunct '.'))
    (rest : List Token) :
    ∃ last, last.endsRun = true ∧
      Statement.collect previous stack.length (pendingSpan as) (bs ++ rest) =
        ⟨.other, Token.extent r.tokens⟩ :: Statement.collect (some last) 0 none rest := by
  induction bs generalizing as stack previous with
  | nil => exact absurd rfl hbs
  | cons t bs ih =>
    have hsplit : r.tokens = (as ++ [t]) ++ bs := by rw [h, List.append_assoc]; rfl
    obtain ⟨stack', hstack', hdepth⟩ := r.exists_run?_append hsplit hstack
    have hcovered := merge_pendingSpan (hsplit ▸ hspans).left
    have hnone : (if stack.length = 0 ∧ !previous.any (·.isPunct '.') then
        Statement.moduleStatement? t (bs ++ rest) else none) = none := by
      by_cases hout : stack.length = 0 ∧ !previous.any (·.isPunct '.')
      · rw [if_pos hout]
        have hempty : stack = [] := List.length_eq_zero_iff.mp hout.1
        have hpoint : previous.any (·.isPunct '.') = false := by simpa using hout.2
        subst hempty
        exact r.moduleStatement?_eq_none h (wellNested_iff.mpr hstack) (hprevious ▸ hpoint) rest
      · rw [if_neg hout]
    have hends : (t.isPunct ';' || t.isPunct '}') = t.endsRun := rfl
    rw [List.cons_append, collect_cons_of_eq_none hnone]
    simp only [hdepth, hcovered, hends]
    by_cases hend : stack'.length = 0 ∧ t.endsRun = true
    · -- The run ends here.
      have hempty : stack' = [] := List.length_eq_zero_iff.mp hend.1
      subst hempty
      obtain rfl : bs = [] := (r.endsRun_iff h (wellNested_iff.mpr hstack')).mp hend.2
      refine ⟨t, hend.2, ?_⟩
      rw [if_pos hend, ← h]
      rfl
    · have hne : bs ≠ [] := by
        rintro rfl
        have hbalanced : Token.BracketsBalanced (as ++ [t]) := h ▸ r.balanced
        have hempty : [] = stack' :=
          Option.some.inj ((wellNested_iff.mp hbalanced).symm.trans hstack')
        exact hend ⟨by rw [← hempty]; rfl, (r.endsRun_iff h hbalanced).mpr rfl⟩
      rw [if_neg hend]
      have hpending : some (Token.extent (as ++ [t])) = pendingSpan (as ++ [t]) := by
        simp [pendingSpan]
      rw [hpending]
      exact ih hsplit hne hstack' (by simp)

/-! ## Items -/

/-- A declaration reaches from its keyword to its semicolon. -/
theorem Origin.merge_extent {keyword : Token} {clause : List Token} (o : Origin)
    (h : Token.Increasing (keyword :: (clause ++ o.tokens))) :
    keyword.span.merge o.semicolon.val.span = Token.extent (keyword :: (clause ++ o.tokens)) := by
  have hshape : keyword :: (clause ++ o.tokens) = keyword ::
      ((clause ++ o.specifier.val :: o.attributeTokens) ++ [o.semicolon.val]) := by
    simp [Origin.tokens]
  rw [hshape] at h ⊢
  exact h.merge_first_last

/-- Where no point stands before it, a declaration is collected as soon as it is recognised. -/
theorem collect_of_moduleStatement? {t : Token} {ts rest : List Token} {s : Statement}
    {previous : Option Token} (h : Statement.moduleStatement? t ts = some (s, rest))
    (hprevious : previous.any (·.isPunct '.') = false) (pending : Option Span) :
    Statement.collect previous 0 pending (t :: ts) =
      ofPending pending ++ s :: Statement.collect none 0 none rest := by
  have hrecognised : (if 0 = 0 ∧ !previous.any (·.isPunct '.') then
      Statement.moduleStatement? t ts else none) = some (s, rest) := by
    rw [if_pos ⟨rfl, by rw [hprevious]; rfl⟩, h]
  exact collect_cons_of_eq_some hrecognised

/-- The statement that the scanner finds for an item. -/
def Item.scanned (x : Item) : Statement := x.statementWith fun i => i.typeOnly && !i.modifiesFrom

/-- The scanner finds one statement for an item, whatever follows it. -/
theorem Item.collect (x : Item) (hspans : Token.Increasing x.tokens) {previous : Option Token}
    (hprevious : previous.any (·.isPunct '.') = false) (rest : List Token) :
    ∃ previous', previous'.any (·.isPunct '.') = false ∧
      Statement.collect previous 0 none (x.tokens ++ rest) =
        x.scanned :: Statement.collect previous' 0 none rest := by
  cases x with
  | importFrom i =>
    have hextent : i.keyword.val.span.merge i.origin.semicolon.val.span = Token.extent i.tokens :=
      i.origin.merge_extent hspans
    have hcollect := collect_of_moduleStatement? (i.moduleStatement? rest) hprevious none
    refine ⟨none, rfl, ?_⟩
    rw [Item.tokens, i.tokens_append, hcollect, hextent]
    rfl
  | exportFrom e =>
    have htokens : e.tokens ++ rest =
        e.keyword.val :: (e.clauseTokens ++ (e.origin.tokens ++ rest)) := by
      simp [Reexport.tokens]
    have hextent : e.keyword.val.span.merge e.origin.semicolon.val.span = Token.extent e.tokens :=
      e.origin.merge_extent hspans
    have hcollect := collect_of_moduleStatement? (e.moduleStatement? rest) hprevious none
    refine ⟨none, rfl, ?_⟩
    rw [Item.tokens, htokens, hcollect, hextent]
    rfl
  | other r =>
    obtain ⟨last, hlast, hcollect⟩ := @Run.collect r [] r.tokens rfl r.ne_nil hspans
      [] rfl previous hprevious rest
    refine ⟨some last, ?_, hcollect⟩
    rw [Token.endsRun, Bool.or_eq_true] at hlast
    rcases hlast with h | h <;> exact Token.isPunct_of_isPunct h (by decide)

/-- The scanner finds one statement for each item. -/
theorem collect_items (items : List Item) (hspans : Token.Increasing (items.flatMap Item.tokens))
    {previous : Option Token} (hprevious : previous.any (·.isPunct '.') = false) :
    Statement.collect previous 0 none (items.flatMap Item.tokens) = items.map Item.scanned := by
  induction items generalizing previous with
  | nil =>
    rw [List.flatMap_nil, Statement.collect]
    rfl
  | cons x items ih =>
    rw [List.flatMap_cons] at hspans ⊢
    obtain ⟨previous', hpoint, hcollect⟩ :=
      x.collect hspans.left hprevious (items.flatMap Item.tokens)
    rw [hcollect, ih hspans.right hpoint, List.map_cons]

theorem Import.typeOnly_of_modifiesFrom {i : Import} (h : i.modifiesFrom = true) :
    i.typeOnly = true := by
  rw [Import.modifiesFrom, Option.any_eq_true] at h
  obtain ⟨f, hf, hboth⟩ := h
  rw [Import.typeOnly, hf, Option.any_some]
  exact (Bool.and_eq_true _ _ ▸ hboth).1

/-- The modifier is seen wherever it is, unless the name `from` follows it. -/
theorem Import.seen_eq_typeOnly_iff (i : Import) :
    (i.typeOnly && !i.modifiesFrom) = i.typeOnly ↔ i.modifiesFrom = false := by
  cases h : i.modifiesFrom with
  | false => simp
  | true => simp [Import.typeOnly_of_modifiesFrom h]

theorem Item.scanned_eq_statement_iff (x : Item) :
    x.scanned = x.statement ↔ x.modifiesFrom = false := by
  cases x with
  | importFrom i =>
    rw [Item.modifiesFrom, ← i.seen_eq_typeOnly_iff]
    simp [Item.scanned, Item.statement, Item.statementWith]
  | exportFrom e => exact iff_of_true rfl rfl
  | other r => exact iff_of_true rfl rfl

end Grammar

open Grammar

/-- The statements of a module are those of its items, one for each and in their order, exactly if no
type-only import has a default binding called `from`. Otherwise such an import, and nothing else, loses
its modifier. -/
theorem statements_ofTokens_iff (ts : List Token) (items : List Item)
    (htokens : Outline.significant ts = items.flatMap Item.tokens)
    (hspans : Token.Increasing (Outline.significant ts)) :
    (Outline.ofTokens ts).statements = items.map Item.scanned ∧
      ((Outline.ofTokens ts).statements = items.map Item.statement ↔
        ∀ x ∈ items, x.modifiesFrom = false) := by
  have hscanned : (Outline.ofTokens ts).statements = items.map Item.scanned := by
    show Statement.collect none 0 none (Outline.significant ts) = _
    rw [htokens] at hspans ⊢
    exact collect_items items hspans rfl
  refine ⟨hscanned, ?_⟩
  rw [hscanned, List.map_inj_left]
  exact forall₂_congr fun x _ => x.scanned_eq_statement_iff

/-- An import of types with attributes, and a call behind it. -/
theorem statements_of_import_and_call :
    ∃ (ts : List Token) (items : List Item),
      ts = (Lexed.ofText "import type a, \x7bb\x7d from 'c' with \x7bd\x7d; e();").tokens ∧
      Outline.significant ts = items.flatMap Item.tokens ∧
      Token.Increasing (Outline.significant ts) ∧
      (Outline.ofTokens ts).statements = items.map Item.statement ∧
      items.map Item.statement =
        [⟨.importFrom ⟨"'c'", ⟨24, 27⟩⟩ true, ⟨0, 37⟩⟩, ⟨.other, ⟨38, 42⟩⟩] := by
  refine ⟨_, [
    .importFrom
      { keyword := ⟨⟨.identifier, ⟨0, 6⟩, "import", none⟩, rfl⟩
        clause := some
          { modifier := some ⟨⟨.identifier, ⟨7, 11⟩, "type", none⟩, rfl⟩
            clause := .both ⟨⟨.identifier, ⟨12, 13⟩, "a", none⟩, rfl, rfl, rfl⟩
              ⟨⟨.punct, ⟨13, 14⟩, ",", none⟩, rfl⟩
              (.named
                { opener := ⟨⟨.punct, ⟨15, 16⟩, "\x7b", none⟩, rfl⟩
                  inner := [⟨.identifier, ⟨16, 17⟩, "b", none⟩]
                  closer := ⟨⟨.punct, ⟨17, 18⟩, "\x7d", none⟩, rfl⟩
                  balanced := .other rfl rfl .nil })
            word := ⟨⟨.identifier, ⟨19, 23⟩, "from", none⟩, rfl⟩ }
        origin :=
          { specifier := ⟨⟨.string, ⟨24, 27⟩, "'c'", none⟩, rfl⟩
            attributes := some
              { word := ⟨⟨.identifier, ⟨28, 32⟩, "with", none⟩, Or.inl rfl⟩
                block :=
                  { opener := ⟨⟨.punct, ⟨33, 34⟩, "\x7b", none⟩, rfl⟩
                    inner := [⟨.identifier, ⟨34, 35⟩, "d", none⟩]
                    closer := ⟨⟨.punct, ⟨35, 36⟩, "\x7d", none⟩, rfl⟩
                    balanced := .other rfl rfl .nil } }
            semicolon := ⟨⟨.punct, ⟨36, 37⟩, ";", none⟩, rfl⟩ } },
    .other
      { tokens := [⟨.identifier, ⟨38, 39⟩, "e", none⟩, ⟨.punct, ⟨39, 40⟩, "(", none⟩,
          ⟨.punct, ⟨40, 41⟩, ")", none⟩, ⟨.punct, ⟨41, 42⟩, ";", none⟩]
        ne_nil := by decide
        balanced := by decide +kernel
        ends := by decide +kernel
        no_import := by decide +kernel
        no_export := by decide +kernel }], rfl, ?_⟩
  refine ⟨by decide +kernel, ⟨by decide +kernel, by decide +kernel⟩, ?_, rfl⟩
  refine (statements_ofTokens_iff _ _ ?_ ⟨?_, ?_⟩).2.mpr ?_ <;> decide +kernel

/-- The modifier of an import of types only is lost if its default binding is called `from`. -/
theorem modifier_before_from_is_lost :
    ∃ (ts : List Token) (items : List Item),
      ts = (Lexed.ofText "import type from from 'x';").tokens ∧
      Outline.significant ts = items.flatMap Item.tokens ∧
      Token.Increasing (Outline.significant ts) ∧
      items.map Item.statement = [⟨.importFrom ⟨"'x'", ⟨22, 25⟩⟩ true, ⟨0, 26⟩⟩] ∧
      (Outline.ofTokens ts).statements = [⟨.importFrom ⟨"'x'", ⟨22, 25⟩⟩ false, ⟨0, 26⟩⟩] := by
  refine ⟨_, [
    .importFrom
      { keyword := ⟨⟨.identifier, ⟨0, 6⟩, "import", none⟩, rfl⟩
        clause := some
          { modifier := some ⟨⟨.identifier, ⟨7, 11⟩, "type", none⟩, rfl⟩
            clause := .default ⟨⟨.identifier, ⟨12, 16⟩, "from", none⟩, rfl, rfl, rfl⟩
            word := ⟨⟨.identifier, ⟨17, 21⟩, "from", none⟩, rfl⟩ }
        origin :=
          { specifier := ⟨⟨.string, ⟨22, 25⟩, "'x'", none⟩, rfl⟩
            attributes := none
            semicolon := ⟨⟨.punct, ⟨25, 26⟩, ";", none⟩, rfl⟩ } }], rfl, ?_⟩
  have hspans : Token.Increasing
      (Outline.significant (Lexed.ofText "import type from from 'x';").tokens) :=
    ⟨by decide +kernel, by decide +kernel⟩
  exact ⟨by decide +kernel, hspans, rfl, by decide +kernel⟩

end ModuleBuild
