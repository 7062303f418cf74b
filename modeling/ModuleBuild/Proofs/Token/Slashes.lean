import ModuleBuild.Proofs.Outline.Nesting
import ModuleBuild.Proofs.Token.Lossless

/-!
# What a slash means

Whether a slash begins a regular expression is said here by the tokens before it: none at all, a token
behind which an operand comes, or the parenthesis that closes the head of a statement. The lexer does
not look back. It keeps one flag for the last token, one for a head word, and a stack with an entry for
each open parenthesis; `Context.Recalls` says what these stand for, and each token keeps it up.

The parenthesis that a closing one belongs to is the one with balanced parentheses in between. There is
at most one, and if there is none the closing parenthesis is stray and changes nothing.

Main statements: `Context.Recalls.after`, about one piece; `Context.Recalls.afterAll`, about the pieces
of a text; and `Lexed.slash_iff`.
-/

namespace ModuleBuild

open Delimiter

namespace Delimiter

variable {κ : Type}

/-- What closes at the end of a well-nested word was opened behind a well-nested word. -/
theorem WellNested.of_concat_closing {k : κ} {ds : List (Delimiter κ)}
    (h : WellNested (ds ++ [closing k])) :
    ∃ front inner, ds = front ++ opening k :: inner ∧ WellNested front ∧ WellNested inner := by
  generalize hword : ds ++ [closing k] = word at h
  induction h generalizing ds with
  | nil => simp at hword
  | @enclose j inner rest hinner hrest _ ih =>
    rcases List.eq_nil_or_concat rest with rfl | ⟨rest, d, rfl⟩
    · have hsplit : ds ++ [closing k] = (opening j :: inner) ++ [closing j] := by simpa using hword
      obtain ⟨rfl, hlast⟩ := List.append_inj' hsplit rfl
      obtain rfl : k = j := by simpa using hlast
      exact ⟨[], inner, rfl, .nil, hinner⟩
    · rw [List.concat_eq_append] at hword hrest ih
      have hsplit : ds ++ [closing k] = (opening j :: (inner ++ closing j :: rest)) ++ [d] := by
        simpa using hword
      obtain ⟨rfl, hlast⟩ := List.append_inj' hsplit rfl
      obtain rfl : closing k = d := by simpa using hlast
      obtain ⟨front, last, rfl, hfront, hlast⟩ := ih rfl
      exact ⟨opening j :: (inner ++ closing j :: front), last, by simp,
        .enclose j hinner hfront, hlast⟩

variable [DecidableEq κ]

theorem WellNested.append {ds es : List (Delimiter κ)} (hds : WellNested ds) (hes : WellNested es) :
    WellNested (ds ++ es) := by
  rw [wellNested_iff, run?_append, hds.run?, Option.bind_some, hes.run?]

theorem WellNested.of_append {ds es : List (Delimiter κ)} (h : WellNested (ds ++ es))
    (hes : WellNested es) : WellNested ds := by
  obtain ⟨s, hds, hs⟩ := run?_append_eq_some (wellNested_iff.mp h)
  rw [hes.run?, Option.some.injEq] at hs
  rw [wellNested_iff, hds, hs]

/-- In a well-nested word, no opening delimiter stands in front of a well-nested end. -/
theorem not_wellNested_opening {ds es : List (Delimiter κ)} {k : κ} (hes : WellNested es) :
    ¬WellNested (ds ++ opening k :: es) := by
  intro h
  obtain ⟨s, -, hs⟩ := run?_append_eq_some (wellNested_iff.mp h)
  rw [run?_opening, hes.run?] at hs
  cases hs

end Delimiter

namespace Token

/-! ## Looking back -/

/-- The parenthesis that a token is. -/
def parenthesis? (t : Token) : Option (Delimiter Unit) :=
  if t.kind = .punct ∧ t.text = "(" then some (opening ())
  else if t.kind = .punct ∧ t.text = ")" then some (closing ())
  else none

/-- Every parenthesis among the tokens is closed or opened among them. -/
def Balanced (ts : List Token) : Prop := WellNested (ts.filterMap parenthesis?)

/-- The last token is a word whose parenthesised head a statement follows. -/
def EndInHeadWord (ts : List Token) : Prop :=
  ∃ t, ts.getLast? = some t ∧ t.kind = .identifier ∧ t.text ∈ Context.headWords

/-- A closing parenthesis behind these tokens belongs to an opening one that stands behind a head
word. -/
def OpenHead (ts : List Token) : Prop :=
  ∃ outer t inner, ts = outer ++ t :: inner ∧ t.parenthesis? = some (opening ()) ∧ Balanced inner ∧
    EndInHeadWord outer

/-- Behind these tokens comes an operand, so a slash begins a regular expression. -/
def ExpectOperand (ts : List Token) : Prop :=
  ts = [] ∨ ∃ before t, ts = before ++ [t] ∧
    (t.kind = .punct ∧ t.text ≠ ")" ∧ t.text ≠ "]" ∨
      t.kind = .identifier ∧ t.text ∈ Context.operandWords ∨
      t.kind = .template ∧ ['$', '{'] <:+ t.text.toList ∨
      t.kind = .punct ∧ t.text = ")" ∧ OpenHead before)

/-! ## Balanced parentheses -/

theorem balanced_nil : Balanced [] := .nil

theorem balanced_singleton {t : Token} (h : t.parenthesis? = none) : Balanced [t] := by
  rw [Balanced, List.filterMap_cons_none h]
  exact .nil

theorem Balanced.append {ts us : List Token} (hts : Balanced ts) (hus : Balanced us) :
    Balanced (ts ++ us) := by
  rw [Balanced, List.filterMap_append]
  exact WellNested.append hts hus

theorem Balanced.of_append {ts us : List Token} (h : Balanced (ts ++ us)) (hus : Balanced us) :
    Balanced ts := by
  rw [Balanced, List.filterMap_append] at h
  exact WellNested.of_append h hus

theorem Balanced.enclose {t u : Token} {inner : List Token} (ht : t.parenthesis? = some (opening ()))
    (hinner : Balanced inner) (hu : u.parenthesis? = some (closing ())) :
    Balanced (t :: (inner ++ [u])) := by
  rw [Balanced, List.filterMap_cons_some ht, List.filterMap_append, List.filterMap_cons_some hu]
  exact WellNested.enclose () hinner .nil

theorem not_balanced_opening {t : Token} {before behind : List Token}
    (ht : t.parenthesis? = some (opening ())) (hbehind : Balanced behind) :
    ¬Balanced (before ++ t :: behind) := by
  rw [Balanced, List.filterMap_append, List.filterMap_cons_some ht]
  exact not_wellNested_opening hbehind

theorem Balanced.of_concat_closing {u : Token} {ts : List Token} (h : Balanced (ts ++ [u]))
    (hu : u.parenthesis? = some (closing ())) :
    ∃ front t inner, ts = front ++ t :: inner ∧ t.parenthesis? = some (opening ()) ∧
      Balanced inner := by
  rw [Balanced, List.filterMap_append, List.filterMap_cons_some hu] at h
  obtain ⟨front, inner, hts, -, hinner⟩ := h.of_concat_closing
  obtain ⟨ts₁, ts₂, rfl, -, hts₂⟩ := List.filterMap_eq_append_iff.mp hts
  obtain ⟨us, t, behind, rfl, -, ht, hbehind⟩ := List.filterMap_eq_cons_iff.mp hts₂
  refine ⟨ts₁ ++ us, t, behind, by simp, ht, ?_⟩
  rw [Balanced, hbehind]
  exact hinner

/-- A closing parenthesis belongs to at most one opening one. -/
theorem opening_unique {outer outer' inner inner' : List Token} {t t' : Token}
    (h : outer ++ t :: inner = outer' ++ t' :: inner') (ht : t.parenthesis? = some (opening ()))
    (ht' : t'.parenthesis? = some (opening ())) (hinner : Balanced inner) (hinner' : Balanced inner') :
    outer = outer' := by
  rcases List.append_eq_append_iff.mp h with ⟨between, rfl, hbetween⟩ | ⟨between, rfl, hbetween⟩
  · cases between with
    | nil => simp
    | cons u between =>
      obtain ⟨-, rfl⟩ := List.cons.inj hbetween
      exact absurd hinner (not_balanced_opening ht' hinner')
  · cases between with
    | nil => simp
    | cons u between =>
      obtain ⟨-, rfl⟩ := List.cons.inj hbetween
      exact absurd hinner' (not_balanced_opening ht hinner)

/-! ## The stack -/

/-- The entries say for each open parenthesis among the tokens, the innermost first, whether it stands
behind a head word. -/
def Opened : List Token → List Bool → Prop
  | ts, [] => ∀ outer t inner, ts = outer ++ t :: inner → t.parenthesis? = some (opening ()) →
      ¬Balanced inner
  | ts, head :: heads => ∃ outer t inner, ts = outer ++ t :: inner ∧
      t.parenthesis? = some (opening ()) ∧ Balanced inner ∧ (head = true ↔ EndInHeadWord outer) ∧
      Opened outer heads

theorem opened_nil : Opened [] [] := by
  intro outer t inner h
  simp at h

theorem Opened.append_balanced {ts us : List Token} {heads : List Bool} (h : Opened ts heads)
    (hus : Balanced us) : Opened (ts ++ us) heads := by
  cases heads with
  | nil =>
    intro outer t inner hsplit ht hinner
    rcases List.append_eq_append_iff.mp hsplit with ⟨between, rfl, rfl⟩ | ⟨between, rfl, hbetween⟩
    · exact not_balanced_opening ht hinner hus
    · cases between with
      | nil =>
        rw [List.nil_append] at hbetween
        rw [← hbetween, ← List.nil_append (t :: inner)] at hus
        exact not_balanced_opening ht hinner hus
      | cons u between =>
        obtain ⟨rfl, rfl⟩ := List.cons.inj hbetween
        exact h outer t between rfl ht (hinner.of_append hus)
  | cons head heads =>
    obtain ⟨outer, t, inner, rfl, ht, hinner, hhead, hheads⟩ := h
    exact ⟨outer, t, inner ++ us, by simp, ht, hinner.append hus, hhead, hheads⟩

theorem Opened.opening {ts : List Token} {heads : List Bool} {t : Token} {head : Bool}
    (h : Opened ts heads) (ht : t.parenthesis? = some (opening ()))
    (hhead : head = true ↔ EndInHeadWord ts) : Opened (ts ++ [t]) (head :: heads) :=
  ⟨ts, t, [], rfl, ht, balanced_nil, hhead, h⟩

theorem Opened.closing {ts : List Token} {heads : List Bool} {u : Token} (h : Opened ts heads)
    (hu : u.parenthesis? = some (closing ())) : Opened (ts ++ [u]) heads.tail := by
  cases heads with
  | nil =>
    intro outer t inner hsplit ht hinner
    rcases List.eq_nil_or_concat inner with rfl | ⟨inner, v, rfl⟩
    · obtain ⟨-, hlast⟩ := List.append_inj' hsplit rfl
      rw [List.singleton_inj] at hlast
      rw [← hlast, hu] at ht
      cases ht
    · -- The parenthesis that `u` closes would have been open before it.
      rw [List.concat_eq_append] at hsplit hinner
      have hsplit' : ts ++ [u] = (outer ++ t :: inner) ++ [v] := by simpa using hsplit
      obtain ⟨rfl, hlast⟩ := List.append_inj' hsplit' rfl
      obtain rfl : u = v := by simpa using hlast
      obtain ⟨front, w, last, rfl, hw, hbalanced⟩ := hinner.of_concat_closing hu
      exact h (outer ++ t :: front) w last (by simp) hw hbalanced
  | cons head heads =>
    obtain ⟨outer, t, inner, rfl, ht, hinner, -, hheads⟩ := h
    have hsplit : outer ++ t :: inner ++ [u] = outer ++ t :: (inner ++ [u]) := by simp
    rw [hsplit]
    exact hheads.append_balanced (hinner.enclose ht hu)

/-- The innermost entry says what a closing parenthesis is behind; without entries it is stray. -/
theorem Opened.openHead_iff {ts : List Token} {heads : List Bool} (h : Opened ts heads) :
    OpenHead ts ↔ heads.head?.getD false = true := by
  cases heads with
  | nil =>
    refine iff_of_false ?_ Bool.false_ne_true
    rintro ⟨outer, t, inner, hsplit, ht, hinner, -⟩
    exact h outer t inner hsplit ht hinner
  | cons head heads =>
    obtain ⟨outer, t, inner, hsplit, ht, hinner, hhead, -⟩ := h
    rw [List.head?_cons, Option.getD_some, hhead]
    constructor
    · rintro ⟨outer', t', inner', hsplit', ht', hinner', hword⟩
      rwa [opening_unique (hsplit.symm.trans hsplit') ht ht' hinner hinner']
    · intro hword
      exact ⟨outer, t, inner, hsplit, ht, hinner, hword⟩

/-! ## One more token -/

theorem endInHeadWord_concat {ts : List Token} {t : Token} :
    EndInHeadWord (ts ++ [t]) ↔ t.kind = .identifier ∧ t.text ∈ Context.headWords := by
  rw [EndInHeadWord, List.getLast?_concat]
  constructor
  · rintro ⟨u, hu, h⟩
    rwa [Option.some.inj hu]
  · intro h
    exact ⟨t, rfl, h⟩

theorem expectOperand_concat {ts : List Token} {t : Token} :
    ExpectOperand (ts ++ [t]) ↔
      t.kind = .punct ∧ t.text ≠ ")" ∧ t.text ≠ "]" ∨
        t.kind = .identifier ∧ t.text ∈ Context.operandWords ∨
        t.kind = .template ∧ ['$', '{'] <:+ t.text.toList ∨
        t.kind = .punct ∧ t.text = ")" ∧ OpenHead ts := by
  constructor
  · rintro (h | ⟨before, u, hsplit, h⟩)
    · simp at h
    · obtain ⟨rfl, hlast⟩ := List.append_inj' hsplit rfl
      obtain rfl : t = u := by simpa using hlast
      exact h
  · intro h
    exact Or.inr ⟨ts, t, rfl, h⟩

end Token

/-- The context stands for the tokens: its flags say whether an operand comes and whether a head word is
the last one, and its stack has an entry for each open parenthesis. -/
structure Context.Recalls (k : Context) (ts : List Token) : Prop where
  slash : k.slashOpensRegex = true ↔ Token.ExpectOperand ts
  word : k.afterHeadWord = true ↔ Token.EndInHeadWord ts
  heads : Token.Opened ts k.heads

namespace Context

open Token

variable {k : Context} {ts : List Token}

theorem recalls_nil : Recalls {} [] where
  slash := iff_of_true rfl (Or.inl rfl)
  word := iff_of_false Bool.false_ne_true (by simp [EndInHeadWord])
  heads := opened_nil

theorem Recalls.afterPunct (h : k.Recalls ts) {t : Token} (hkind : t.kind = .punct)
    {text : List Char} (htext : t.text = String.ofList text) :
    (k.afterPunct text).Recalls (ts ++ [t]) := by
  have hword : false = true ↔ EndInHeadWord (ts ++ [t]) := by
    simp [endInHeadWord_concat, hkind]
  have hplain : text ≠ ['('] → text ≠ [')'] → t.parenthesis? = none := by
    intro hopen hclose
    have hopen' : t.text ≠ "(" := fun h => hopen (String.ofList_inj.mp (htext.symm.trans h))
    have hclose' : t.text ≠ ")" := fun h => hclose (String.ofList_inj.mp (htext.symm.trans h))
    simp [parenthesis?, hopen', hclose']
  unfold Context.afterPunct
  dsimp only
  split
  · have ht : t.parenthesis? = some (opening ()) := by simp [parenthesis?, hkind, htext]
    refine ⟨?_, hword, h.heads.opening ht h.word⟩
    simp [expectOperand_concat, hkind, htext]
  · have ht : t.parenthesis? = some (closing ()) := by simp [parenthesis?, hkind, htext]
    refine ⟨?_, hword, h.heads.closing ht⟩
    rw [← h.heads.openHead_iff, expectOperand_concat]
    simp [hkind, htext]
  · refine ⟨?_, hword, h.heads.append_balanced (balanced_singleton (hplain (by simp) (by simp)))⟩
    simp [expectOperand_concat, hkind, htext]
  · refine ⟨?_, hword, h.heads.append_balanced (balanced_singleton (hplain (by simp) (by simp)))⟩
    simp [expectOperand_concat, hkind, htext]
  · refine ⟨?_, hword, h.heads.append_balanced (balanced_singleton (hplain (by simp) (by simp)))⟩
    simp [expectOperand_concat, hkind, htext]
  · next hopen hclose hbracket _ _ =>
    refine ⟨?_, hword, h.heads.append_balanced (balanced_singleton (hplain hopen hclose))⟩
    have hclose' : t.text ≠ ")" := fun h => hclose (String.ofList_inj.mp (htext.symm.trans h))
    have hbracket' : t.text ≠ "]" := fun h => hbracket (String.ofList_inj.mp (htext.symm.trans h))
    simp [expectOperand_concat, hkind, hclose', hbracket']

theorem Recalls.notPunct (h : k.Recalls ts) {t : Token} (hkind : t.kind ≠ .punct) {k' : Context}
    (hheads : k'.heads = k.heads)
    (hslash : k'.slashOpensRegex = true ↔ t.kind = .identifier ∧ t.text ∈ operandWords ∨
      t.kind = .template ∧ ['$', '{'] <:+ t.text.toList)
    (hword : k'.afterHeadWord = true ↔ t.kind = .identifier ∧ t.text ∈ headWords) :
    k'.Recalls (ts ++ [t]) := by
  have hplain : t.parenthesis? = none := by simp [parenthesis?, hkind]
  refine ⟨?_, ?_, ?_⟩
  · simpa [expectOperand_concat, hkind] using hslash
  · rwa [endInHeadWord_concat]
  · rw [hheads]
    exact h.heads.append_balanced (balanced_singleton hplain)

/-- A piece keeps up what the context stands for. Errors are no tokens here, like comments and blanks. -/
theorem Recalls.after (h : k.Recalls ts) (p : Piece) (offset : Nat) :
    (k.after p).Recalls (ts ++ (p.token? offset).toList.filter (·.kind ≠ .error)) := by
  obtain ⟨kind, text⟩ := p
  cases kind with
  | blank | lineComment | blockComment => simpa [Context.after, Piece.token?, Piece.tokenKind?] using h
  | fault error =>
    have hrecalls : (k.after ⟨.fault error, text⟩).Recalls ts := ⟨h.slash, h.word, h.heads⟩
    simpa [Piece.token?, Piece.tokenKind?] using hrecalls
  | punct => exact h.afterPunct rfl rfl
  | identifier =>
    refine h.notPunct (t := ⟨.identifier, _, String.ofList text, none⟩) (by simp) rfl ?_ ?_
    · simp [Context.after]
    · simp [Context.after]
  | template =>
    refine h.notPunct (t := ⟨.template, _, String.ofList text, none⟩) (by simp) rfl ?_ ?_
    · simp [Context.after, Piece.opensSubstitution, ← List.reverse_prefix]
    · simp [Context.after]
  | number | string | regex =>
    refine h.notPunct (t := ⟨_, _, String.ofList text, none⟩) ?_ rfl ?_ ?_ <;> simp [Context.after]

/-- The context behind the pieces of a text stands for their tokens. -/
theorem Recalls.afterAll (h : k.Recalls ts) (offset : Nat) (ps : List Piece) :
    (k.afterAll ps).Recalls (ts ++ (Piece.tokens offset ps).filter (·.kind ≠ .error)) := by
  induction ps generalizing k ts offset with
  | nil => simpa using h
  | cons p ps ih =>
    rw [afterAll_cons, Piece.tokens_cons, List.filter_append, ← List.append_assoc]
    exact ih (h.after p offset) _

end Context

/-! ## A slash -/

/-- A token among others is one of the pieces, and the tokens before it are those of the pieces before
it. -/
theorem Piece.tokens_eq_append_cons {offset : Nat} {ps : List Piece} {before after : List Token}
    {t : Token} (h : tokens offset ps = before ++ t :: after) :
    ∃ qs p rs, ps = qs ++ p :: rs ∧ tokens offset qs = before ∧
      p.token? (offset + totalLength qs) = some t := by
  induction ps generalizing offset before with
  | nil => simp at h
  | cons p ps ih =>
    rw [tokens_cons] at h
    cases hp : p.token? offset with
    | none =>
      rw [hp, Option.toList_none, List.nil_append] at h
      obtain ⟨qs, q, rs, rfl, rfl, hq⟩ := ih h
      refine ⟨p :: qs, q, rs, rfl, ?_, ?_⟩
      · rw [tokens_cons, hp, Option.toList_none, List.nil_append]
      · rwa [totalLength_cons, ← Nat.add_assoc]
    | some u =>
      rw [hp, Option.toList_some, List.singleton_append] at h
      cases before with
      | nil =>
        obtain ⟨rfl, -⟩ := List.cons.inj h
        exact ⟨[], p, ps, rfl, rfl, hp⟩
      | cons v before =>
        obtain ⟨rfl, hbehind⟩ := List.cons.inj h
        obtain ⟨qs, q, rs, rfl, rfl, hq⟩ := ih hbehind
        refine ⟨p :: qs, q, rs, rfl, ?_, ?_⟩
        · rw [tokens_cons, hp, Option.toList_some, List.singleton_append]
        · rwa [totalLength_cons, ← Nat.add_assoc]

/-- What a slash begins, comments apart: a regular expression, finished or not, or itself. -/
theorem Piece.Reads.slash {a b : Bool} {cs rest : List Char} {p : Piece} {offset : Nat} {t : Token}
    (h : Reads a b '/' cs p rest) (ht : p.token? offset = some t) (hcomment : t.code ≠ some 1010) :
    a = true ∧ (t.kind = .regex ∨ t.kind = .error ∧ t.code = some 1161) ∨
      a = false ∧ t.kind = .punct ∧ t.text = "/" := by
  generalize hc : '/' = c at h
  cases h with
  | blank hblank => rw [← hc] at hblank; exact absurd hblank (by decide)
  | lineComment => simp [token?, tokenKind?] at ht
  | blockComment => simp [token?, tokenKind?] at ht
  | openComment =>
    rw [token?, tokenKind?, Option.map_some, Option.some.injEq] at ht
    rw [← ht] at hcomment
    exact absurd rfl hcomment
  | string hquote => rw [← hc] at hquote; simp at hquote
  | openString hquote => rw [← hc] at hquote; simp at hquote
  | template hquote => rw [← hc] at hquote; simp at hquote
  | openTemplate hquote => rw [← hc] at hquote; simp at hquote
  | number hdigit => rw [← hc] at hdigit; simp at hdigit
  | name hname => rw [← hc] at hname; exact absurd hname (by decide)
  | invalid hname hinvalid => rw [← hc] at hinvalid; exact absurd hinvalid (by decide)
  | regex hslash =>
    obtain rfl := Option.some.inj ht
    exact Or.inl ⟨hslash, Or.inl rfl⟩
  | openRegex hslash =>
    obtain rfl := Option.some.inj ht
    exact Or.inl ⟨hslash, Or.inr ⟨rfl, rfl⟩⟩
  | punct _ _ _ hslash =>
    obtain rfl := Option.some.inj ht
    subst hc
    exact Or.inr ⟨(hslash rfl).1, rfl, rfl⟩

/-- A slash begins a regular expression exactly if an operand comes behind the tokens before it; errors
are left out of account. Otherwise it divides. -/
theorem Lexed.slash_iff {text : String} {before after : List Token} {t : Token}
    (htokens : (Lexed.ofText text).tokens = before ++ t :: after)
    (hslash : Text.charAt? text.toList t.span.start = some '/') (hcomment : t.code ≠ some 1010) :
    ((t.kind = .regex ∨ t.kind = .error ∧ t.code = some 1161) ↔
        Token.ExpectOperand (before.filter (·.kind ≠ .error))) ∧
      (¬Token.ExpectOperand (before.filter (·.kind ≠ .error)) → t.kind = .punct ∧ t.text = "/") := by
  rw [tokens_ofText] at htokens
  rcases List.eq_nil_or_concat after with rfl | ⟨after, last, rfl⟩
  · -- No character stands at the end token.
    obtain ⟨-, hlast⟩ := List.append_inj' htokens rfl
    have hend := Text.charAt?_append text.toList [] 0
    rw [List.append_nil, Nat.add_zero, Text.charAt?] at hend
    rw [← List.singleton_inj.mp hlast, Token.atEnd, hend] at hslash
    cases hslash
  · have hsplit : Piece.tokens (Lexer.programStart text) (Piece.ofText text) ++
        [Token.atEnd (Text.byteLength text.toList)] = (before ++ t :: after) ++ [last] := by
      simpa using htokens
    obtain ⟨htokens, -⟩ := List.append_inj' hsplit rfl
    obtain ⟨qs, p, rs, hps, rfl, ht⟩ := Piece.tokens_eq_append_cons htokens
    obtain ⟨c, cs, hprogram, hp, -⟩ := Context.eq_read_of_pieces_eq hps
    have hchar := Text.charAt?_append
      (Lexer.interpreterLine text.toList ++ qs.flatMap Piece.text) (c :: cs) 0
    have hstart : t.span.start = Lexer.programStart text + Piece.totalLength qs := by
      rw [Piece.span_of_token? ht, Piece.spanAt_start]
    rw [← Lexer.toList_eq_append hprogram, Lexer.byteLength_before, ← hstart, Nat.add_zero, hslash,
      Text.charAt?, if_pos c.utf8Size_pos] at hchar
    obtain rfl := Option.some.inj hchar
    have hrecalls := Context.recalls_nil.afterAll (Lexer.programStart text) qs
    have hreads : Piece.Reads _ _ '/' cs p _ := hp ▸ Piece.reads_read ..
    rw [List.nil_append] at hrecalls
    rw [← hrecalls.slash]
    rcases hreads.slash ht hcomment with ⟨hopens, hkind⟩ | ⟨hdivides, hkind, hslash⟩
    · exact ⟨iff_of_true hkind hopens, fun hdivides => absurd hopens hdivides⟩
    · rw [hdivides, hkind]
      exact ⟨iff_of_false (by simp) Bool.false_ne_true, fun _ => ⟨rfl, hslash⟩⟩

/-- In `while (f(x)) /a/` the slash stands behind the head of the loop, whose parenthesis is not the
last one opened. -/
theorem Lexed.slash_behind_loop_head :
    ∃ before t, (Lexed.ofText "while (f(x)) /a/").tokens = before ++ t :: [Token.atEnd 16] ∧
      t.kind = .regex ∧ Token.ExpectOperand (before.filter (·.kind ≠ .error)) := by
  let before : List Token :=
    [⟨.identifier, ⟨0, 5⟩, "while", none⟩, ⟨.punct, ⟨6, 7⟩, "(", none⟩,
      ⟨.identifier, ⟨7, 8⟩, "f", none⟩, ⟨.punct, ⟨8, 9⟩, "(", none⟩,
      ⟨.identifier, ⟨9, 10⟩, "x", none⟩, ⟨.punct, ⟨10, 11⟩, ")", none⟩,
      ⟨.punct, ⟨11, 12⟩, ")", none⟩]
  let t : Token := ⟨.regex, ⟨13, 16⟩, "/a/", none⟩
  have htokens : (Lexed.ofText "while (f(x)) /a/").tokens = before ++ t :: [Token.atEnd 16] := by
    decide +kernel
  exact ⟨before, t, htokens, rfl,
    (Lexed.slash_iff htokens (by decide +kernel) (by decide)).1.mp (Or.inl rfl)⟩

end ModuleBuild
