import ModuleBuild.Proofs.Engine.Diagnostics
import ModuleBuild.Proofs.Outline.Contents
import ModuleBuild.Proofs.Outline.Partition
import ModuleBuild.Proofs.Token.LineEnds

/-!
# Checking texts with line ends of two characters

Which characters end the lines of a text should make no difference to a check. It makes none as long as
no string and no regular expression goes on behind an escaped line feed: the tokens are the same, each
keeps its line and its column, and so do the problems found in them. A literal that does go on behind an
escaped line feed is cut there once a carriage return stands in front of it, and then something is
reported where nothing has been.

Main statements: `LexicalProgram.checksAlike_crlf`; and `LexicalProgram.checksAlike_crlf_iff`, which is
the exact condition.
-/

namespace ModuleBuild

open Text

/-! ## What a check tells -/

/-- What is told of a diagnostic: all but the bytes that are meant. -/
def Diagnostic.told (d : Diagnostic) : Severity × Option Nat × MessageChain × Option (Nat × Nat) :=
  (d.severity, d.code, d.message, d.location.map fun l => (l.line, l.column))

/-- The statement in the text with a carriage return in front of each line feed. -/
def Statement.Kind.crlf : Statement.Kind → Statement.Kind
  | .importFrom specifier typeOnly => .importFrom ⟨Text.crlf specifier.raw, specifier.span⟩ typeOnly
  | .exportFrom specifier => .exportFrom ⟨Text.crlf specifier.raw, specifier.span⟩
  | .other => .other

/-- The program `q` of a text with carriage returns in front of the line feeds is checked like the program
`p` of the text without them: the same is reported at the same lines and columns, and there are the same
statements. -/
structure LexicalProgram.ChecksAlike (p q : LexicalProgram) : Prop where
  diagnostics : q.diagnostics.map Diagnostic.told = p.diagnostics.map Diagnostic.told
  statements : q.file.statements.map Statement.content =
    p.file.statements.map fun s => s.content.crlf

/-- What a diagnostic about the problem tells. -/
def Problem.told (text : String) (p : Problem) :
    Severity × Option Nat × MessageChain × Option (Nat × Nat) :=
  (.error, some p.code, .plain p.message,
    some ((LineTable.ofText text).position text p.span.start))

theorem LexicalProgram.map_told_diagnostics (root : Path) (options : Options) (text : String) :
    (ofText root options text).1.diagnostics.map Diagnostic.told =
      (Outline.ofTokens (Lexed.ofText text).tokens).problems.map (Problem.told text) := by
  show (List.map _ _).map _ = _
  rw [List.map_map]
  rfl

/-! ## The problems keep their places -/

/-- Places keep their order. -/
theorem Text.byteLength_withReturns_le_iff {a b c d : List Char} (h : a ++ b = c ++ d) :
    byteLength (withReturns a) ≤ byteLength (withReturns c) ↔ byteLength a ≤ byteLength c := by
  have hcount : ∀ cs : List Char, cs.count '\n' ≤ byteLength cs := fun cs =>
    List.count_le_length.trans (length_le_byteLength cs)
  rcases List.append_eq_append_iff.mp h with ⟨between, rfl, -⟩ | ⟨between, rfl, -⟩
  · rw [withReturns_append, byteLength_append, byteLength_append]
    exact iff_of_true (Nat.le_add_right ..) (Nat.le_add_right ..)
  · have hbetween := hcount between
    rw [withReturns_append, byteLength_append, byteLength_append, byteLength_withReturns between]
    omega

namespace Outline

theorem fits_of_mem_problemsOf {text : String} {p : Problem}
    (h : p ∈ problemsOf (Lexed.ofText text).tokens) : p.span.Fits text.toList :=
  Problem.fits_of_mem_problems (List.mem_mergeSort.mpr h)

theorem tokens_ne_nil (text : String) : (Lexed.ofText text).tokens ≠ [] := by
  rw [Lexed.tokens_ofText]
  simp

theorem restates_beginning : Token.Restates Token.beginning := ⟨fun _ => rfl, fun _ _ => rfl⟩

theorem restates_returned (text : String) : Token.Restates (Token.returned text) :=
  ⟨fun _ => rfl, fun _ ht => if_neg ht⟩

theorem problems_beginning (text : String) :
    (ofTokens ((Lexed.ofText text).tokens.map Token.beginning)).problems =
      (ofTokens (Lexed.ofText text).tokens).problems.map (Problem.moved Span.beginning) := by
  refine problems_map restates_beginning (fun _ => rfl) (fun _ => rfl) (tokens_ne_nil text) ?_
  intro p _ q _
  rfl

theorem problems_returned (text : String) :
    (ofTokens ((Lexed.ofText text).tokens.map (Token.returned text))).problems =
      (ofTokens (Lexed.ofText text).tokens).problems.map (Problem.moved (Span.returned text)) := by
  refine problems_map (restates_returned text) (fun _ => rfl) (fun _ => rfl) (tokens_ne_nil text) ?_
  intro p hp q hq
  obtain ⟨before, after, hsplit, hstart⟩ := (fits_of_mem_problemsOf hp).start
  obtain ⟨before', after', hsplit', hstart'⟩ := (fits_of_mem_problemsOf hq).start
  rw [Span.returned, Span.returned, hstart, hstart', ← LineTable.byteLength_withReturns_eq hsplit,
    ← LineTable.byteLength_withReturns_eq hsplit']
  exact (byteLength_withReturns_le_iff (hsplit.symm.trans hsplit')).symm

end Outline

theorem Problem.told_returned {text : String} {p : Problem}
    (h : p ∈ (Outline.ofTokens (Lexed.ofText text).tokens).problems) :
    (p.moved (Span.returned text)).told (crlf text) = p.told text := by
  obtain ⟨before, after, hsplit, hstart⟩ := (Problem.fits_of_mem_problems h).start
  have hposition := LineTable.position_crlf hsplit
  rw [LineTable.byteLength_withReturns_eq hsplit, ← hstart] at hposition
  unfold Problem.told
  rw [← hposition]
  rfl

namespace Lexed

variable {text : String} (h : ∀ p ∈ Piece.ofText text, p.StaysOnLine)

include h

theorem not_mem_feed_of_string {t : Token} (ht : t ∈ (ofText text).tokens) (hkind : t.kind = .string) :
    '\n' ∉ t.text.toList := by
  rcases mem_tokens_iff.mp ht with ⟨qs, p, rs, hps, ht⟩ | rfl
  · have hliteral := (Piece.isLiteral_token?_iff ht).mp (Or.inl hkind)
    rw [Piece.text_of_token? ht (by simp [hkind])]
    exact h p (by simp [hps]) hliteral
  · cases hkind

/-- The problems are told alike. -/
theorem map_told_problems_crlf :
    (Outline.ofTokens (ofText (crlf text)).tokens).problems.map (Problem.told (crlf text)) =
      (Outline.ofTokens (ofText text).tokens).problems.map (Problem.told text) := by
  have hmoved : (Outline.ofTokens (ofText (crlf text)).tokens).problems.map
        (Problem.moved Span.beginning) =
      (Outline.ofTokens (ofText text).tokens).problems.map (Problem.moved (Span.returned text)) := by
    rw [← Outline.problems_beginning, beginning_tokens_crlf h, Outline.problems_returned]
  have htold : Problem.told (crlf text) = Problem.told (crlf text) ∘ Problem.moved Span.beginning := rfl
  rw [htold, ← List.map_map, hmoved, List.map_map]
  exact List.map_congr_left fun p hp => Problem.told_returned hp

/-- The statements say the same. -/
theorem map_content_statements_crlf :
    (Outline.ofTokens (ofText (crlf text)).tokens).statements.map Statement.content =
      (Outline.ofTokens (ofText text).tokens).statements.map Statement.content := by
  have hbeginning := Outline.restates_beginning
  have hreturned := Outline.restates_returned text
  rw [Outline.ofTokens, Outline.ofTokens, ← Statement.map_content_ofTokens_map hbeginning,
    ← Outline.significant_map hbeginning, beginning_tokens_crlf h,
    Outline.significant_map hreturned, Statement.map_content_ofTokens_map hreturned]

end Lexed

/-! ## The same check -/

namespace LexicalProgram

variable (root : Path) (options : Options) {text : String}

/-- Without escaped line feeds in strings and regular expressions the check is the same. -/
theorem checksAlike_crlf (h : ∀ p ∈ Piece.ofText text, p.StaysOnLine) :
    (ofText root options text).1.ChecksAlike (ofText root options (crlf text)).1 where
  diagnostics := by
    rw [map_told_diagnostics, map_told_diagnostics, Lexed.map_told_problems_crlf h]
  statements := by
    have hsame : ∀ s ∈ (Outline.ofTokens (Lexed.ofText text).tokens).statements,
        s.content.crlf = s.content := by
      intro s hs
      have hraw : ∀ specifier, s.specifier? = some specifier → crlf specifier.raw = specifier.raw := by
        intro specifier hspecifier
        obtain ⟨t, ht, hkind, rfl⟩ := Lexed.exists_string_of_mem_statements hs hspecifier
        rw [crlf, withReturns_eq_self (Lexed.not_mem_feed_of_string h ht hkind),
          String.ofList_toList]
      obtain ⟨kind, span⟩ := s
      cases kind with
      | importFrom specifier typeOnly =>
        simp [Statement.content, Statement.Kind.crlf, hraw specifier rfl]
      | exportFrom specifier => simp [Statement.content, Statement.Kind.crlf, hraw specifier rfl]
      | other => rfl
    show (Outline.ofTokens (Lexed.ofText (crlf text)).tokens).statements.map Statement.content =
      (Outline.ofTokens (Lexed.ofText text).tokens).statements.map fun s => s.content.crlf
    rw [Lexed.map_content_statements_crlf h]
    exact (List.map_congr_left hsame).symm

end LexicalProgram

/-! ## A different check -/

/-- No two tokens begin in one place. -/
theorem Lexed.eq_of_start_eq {text : String} {t u : Token} (ht : t ∈ (ofText text).tokens)
    (hu : u ∈ (ofText text).tokens) (h : t.span.start = u.span.start) : t = u := by
  let Apart (t u : Token) : Prop := t.span.start ≠ u.span.start
  have hsymm : Std.Symm Apart := ⟨fun _ _ h => h.symm⟩
  have hapart : (ofText text).tokens.Pairwise Apart := by
    have hordered := pairwise_tokens text
    rw [tokens_ofText, List.pairwise_append] at hordered ⊢
    obtain ⟨htokens, -, hend⟩ := hordered
    refine ⟨htokens.imp_of_mem fun ht _ hle => ?_, List.pairwise_singleton _ _, fun t ht u hu => ?_⟩
    · exact (Nat.lt_of_lt_of_le (start_lt_stop text ht) hle).ne
    · exact (Nat.lt_of_lt_of_le (start_lt_stop text ht) (hend t ht u hu)).ne
  by_contra hne
  exact hapart.forall ht hu hne h

theorem Problem.code_of_mem_ofDelimiters {atEnd : Span} {stack : List Bracket} {ts : List Token}
    {p : Problem} (h : p ∈ ofDelimiters atEnd stack ts) : p.code = 1005 ∨ p.code = 1128 := by
  induction ts generalizing stack with
  | nil =>
    obtain ⟨b, -, rfl⟩ := List.mem_map.mp h
    exact Or.inl rfl
  | cons t ts ih =>
    rw [ofDelimiters] at h
    split at h
    · exact ih h
    · exact ih h
    · split at h
      · rcases List.mem_cons.mp h with rfl | h
        · exact Or.inr rfl
        · exact ih h
      · rcases List.mem_append.mp h with h | h
        · obtain ⟨b, -, rfl⟩ := List.mem_map.mp h
          exact Or.inl rfl
        · exact ih h

namespace Outline

variable {ts : List Token}

/-- Every error token is a problem. -/
theorem mem_problems_of_error {t : Token} (ht : t ∈ ts) (hkind : t.kind = .error) :
    ⟨t.span, t.code.getD 1127, t.text⟩ ∈ (ofTokens ts).problems := by
  refine List.mem_mergeSort.mpr (List.mem_append_left _ (List.mem_filterMap.mpr ⟨t, ht, ?_⟩))
  rw [Problem.ofError?, if_pos hkind]

/-- A problem that is not about delimiters is an error token. -/
theorem exists_error_of_mem_problems {p : Problem} (hp : p ∈ (ofTokens ts).problems)
    (hcode : p.code ≠ 1005 ∧ p.code ≠ 1128) : ∃ t ∈ ts, t.kind = .error ∧ p.span = t.span := by
  rw [ofTokens, List.mem_mergeSort, problemsOf, List.mem_append] at hp
  rcases hp with herror | hdelimiter
  · obtain ⟨t, ht, hp⟩ := List.mem_filterMap.mp herror
    obtain ⟨hkind, hp⟩ := Option.ite_none_right_eq_some.mp hp
    exact ⟨t, ht, hkind, by rw [← Option.some.inj hp]⟩
  · rcases Problem.code_of_mem_ofDelimiters hdelimiter with h | h
    · exact absurd h hcode.1
    · exact absurd h hcode.2

end Outline

namespace LexicalProgram

variable (root : Path) (options : Options) {text : String}

/-- The first string or regular expression with an escaped line feed is reported where it begins, if a
carriage return stands in front of each line feed. -/
theorem not_checksAlike_crlf {qs rs : List Piece} {p : Piece} (hps : Piece.ofText text = qs ++ p :: rs)
    (hqs : ∀ q ∈ qs, q.StaysOnLine) (hkind : p.kind = .string ∨ p.kind = .regex)
    (hfeed : '\n' ∈ p.text) :
    ¬(ofText root options text).1.ChecksAlike (ofText root options (crlf text)).1 := by
  intro halike
  have hsplit := Lexer.toList_eq_append (Piece.program_eq_append hps)
  obtain ⟨t, ht⟩ : ∃ t, p.token? (Lexer.programStart text + Piece.totalLength qs) = some t := by
    rcases hkind with hkind | hkind <;> simp [Piece.token?, Piece.tokenKind?, hkind]
  have hmem := Lexed.mem_tokens_iff.mpr (Or.inl ⟨qs, p, rs, hps, ht⟩)
  -- The error that is reported in the other text is told of this one too.
  obtain ⟨t', ht', herror', hcode', hstart'⟩ := Lexed.exists_error_crlf hps hqs hkind hfeed
  have htold' := List.mem_map_of_mem (f := Problem.told (crlf text))
    (Outline.mem_problems_of_error ht' herror')
  have hsame := halike.diagnostics
  rw [map_told_diagnostics, map_told_diagnostics] at hsame
  rw [hsame] at htold'
  obtain ⟨q, hq, htold⟩ := List.mem_map.mp htold'
  obtain ⟨hcode, -, hposition⟩ : q.code = t'.code.getD 1127 ∧
      MessageChain.plain q.message = .plain t'.text ∧
      (LineTable.ofText text).position text q.span.start =
        (LineTable.ofText (crlf text)).position (crlf text) t'.span.start := by
    simpa [Problem.told] using htold
  -- It is an error where `p` begins, but what begins there is `p`.
  obtain ⟨u, hu, herror, hspan⟩ := Outline.exists_error_of_mem_problems hq
    (by rcases hcode' with h | h <;> simp [hcode, h])
  obtain ⟨before, after, hsplit', hstart⟩ := (Problem.fits_of_mem_problems hq).start
  rw [hstart', LineTable.position_crlf hsplit, hstart] at hposition
  obtain rfl := LineTable.eq_of_position_eq hsplit' hsplit hposition
  have hbegins : t.span.start = u.span.start := by
    rw [← hspan, hstart, Piece.span_of_token? ht, Lexer.byteLength_before, Piece.spanAt_start]
  obtain rfl := Lexed.eq_of_start_eq hmem hu hbegins
  have hkind' := Piece.kind_of_token? ht
  rw [herror] at hkind'
  rcases hkind with hkind | hkind <;> simp [Piece.tokenKind?, hkind] at hkind'

/-- If no string and no regular expression that is left open goes on behind an escaped line feed, a carriage
return in front of each line feed makes no difference to the check exactly if no finished one does. -/
theorem checksAlike_crlf_iff
    (hopen : ∀ t ∈ (Lexed.ofText text).tokens, t.code = some 1002 ∨ t.code = some 1161 →
      ¬t.CrossesLine text.toList) :
    (ofText root options text).1.ChecksAlike (ofText root options (crlf text)).1 ↔
      ∀ t ∈ (Lexed.ofText text).tokens, t.kind = .string ∨ t.kind = .regex →
        ¬t.CrossesLine text.toList := by
  constructor
  · intro halike t ht hkind hcross
    have hnot : ¬∀ p ∈ Piece.ofText text, p.StaysOnLine := by
      intro hstays
      exact Lexed.forall_staysOnLine_iff.mp hstays t ht (hkind.imp_right Or.inl) hcross
    obtain ⟨qs, p, rs, hps, hqs, hp⟩ := Piece.exists_first_not_staysOnLine hnot
    obtain ⟨hliteral, hfeed⟩ := Classical.not_imp.mp hp
    obtain ⟨u, hu⟩ := Piece.exists_token?_of_not_staysOnLine hp
      (Lexer.programStart text + Piece.totalLength qs)
    have hmem := Lexed.mem_tokens_iff.mpr (Or.inl ⟨qs, p, rs, hps, hu⟩)
    have hclosed : ¬(u.code = some 1002 ∨ u.code = some 1161) := fun hcode =>
      hp ((Lexed.staysOnLine_iff hps hu).mpr fun _ => hopen u hmem hcode)
    have hkind : p.kind = .string ∨ p.kind = .regex := by
      rcases hliteral with hkind | hkind | hkind | hkind
      · exact Or.inl hkind
      · exact Or.inr hkind
      · exact absurd (Or.inl (Piece.code_of_token? hu hkind)) hclosed
      · exact absurd (Or.inr (Piece.code_of_token? hu hkind)) hclosed
    exact not_checksAlike_crlf root options hps hqs hkind (not_not.mp hfeed) halike
  · intro hfinished
    refine checksAlike_crlf root options (Lexed.forall_staysOnLine_iff.mpr fun t ht hliteral => ?_)
    rcases hliteral with hkind | hkind | hcode | hcode
    · exact hfinished t ht (Or.inl hkind)
    · exact hfinished t ht (Or.inr hkind)
    · exact hopen t ht (Or.inl hcode)
    · exact hopen t ht (Or.inr hcode)

/-- The two lines of `import './a';` and `f(/b/);` may end in either way. -/
theorem checksAlike_crlf_import :
    (ofText ⟨"a.ts"⟩ {} "import './a';\nf(/b/);").1.ChecksAlike
      (ofText ⟨"a.ts"⟩ {} (crlf "import './a';\nf(/b/);")).1 :=
  (checksAlike_crlf_iff ⟨"a.ts"⟩ {} (by decide +kernel)).mpr (by decide +kernel)

/-- A string that goes on behind an escaped line feed is fine, but with a carriage return in front of the
line feed it is an error. -/
theorem escaped_feed_cuts_string :
    '\r' ∉ "'a\\\nb';".toList ∧
      ¬(ofText ⟨"a.ts"⟩ {} "'a\\\nb';").1.ChecksAlike
        (ofText ⟨"a.ts"⟩ {} (crlf "'a\\\nb';")).1 := by
  refine ⟨by decide, fun halike => ?_⟩
  have hclean : (ofText ⟨"a.ts"⟩ {} "'a\\\nb';").1.diagnostics = [] := by
    rw [diagnostics_eq_nil_iff]
    decide +kernel
  have hnone := halike.diagnostics
  rw [hclean, List.map_nil, List.map_eq_nil_iff, diagnostics_eq_nil_iff] at hnone
  exact absurd hnone.1 (by decide +kernel)

end LexicalProgram

end ModuleBuild
