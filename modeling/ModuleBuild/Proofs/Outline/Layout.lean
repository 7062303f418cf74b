import ModuleBuild.Proofs.Outline.Contents
import ModuleBuild.Proofs.Token.Places

/-!
# Layout

How the tokens of a program are laid out does not matter. Where a blank stands behind each token, no
token takes in the beginning of the next one, and what a slash or a closing brace means was settled by
the tokens before it in the first place. So the tokens are read again, whichever blanks stand between
them, and with them the outline.

Main statements: `Context.pieces_layOut`, by which pieces that are laid out anew are read again between
the blanks; and `Lexed.layout_independent`.
-/

namespace ModuleBuild

open Text

/-- Blanks that keep two tokens apart. -/
abbrev Gap : Type := { cs : List Char // cs ≠ [] ∧ ∀ c ∈ cs, isBlank c = true }

/-- The texts one behind the other, with `gap n` behind the `n`th of them; there is none behind the
last. -/
def layOut (gap : Nat → Gap) : List (List Char) → List Char
  | [] => []
  | [text] => text
  | text :: next :: texts => text ++ (gap 0).val ++ layOut (fun n => gap (n + 1)) (next :: texts)

/-- The program of `text` with these gaps between its tokens, and with `back` behind them. -/
def Lexed.relaid (text : String) (gap : Nat → Gap) (back : List Char) : String :=
  String.ofList
    (layOut gap ((Outline.significant (ofText text).tokens).map (·.text.toList)) ++ back)

/-- The pieces of a text that are tokens. -/
def Lexed.told (text : String) : List Piece := (Piece.ofText text).filter (·.tokenKind?.isSome)

/-- Behind the first text there are blanks, unless nothing is there. -/
theorem exists_layOut_cons (gap : Nat → Gap) {back : List Char} (hback : ∀ c ∈ back, isBlank c = true)
    (text : List Char) (texts : List (List Char)) :
    ∃ blanks, (∀ c ∈ blanks, isBlank c = true) ∧
      layOut gap (text :: texts) ++ back =
        text ++ (blanks ++ (layOut (fun n => gap (n + 1)) texts ++ back)) ∧
      ∀ d, (blanks ++ (layOut (fun n => gap (n + 1)) texts ++ back)).head? = some d →
        isBlank d = true := by
  cases texts with
  | nil =>
    refine ⟨[], by simp, rfl, ?_⟩
    intro d hd
    exact hback d (List.mem_of_mem_head? hd)
  | cons next texts =>
    obtain ⟨hne, hblank⟩ := (gap 0).2
    refine ⟨(gap 0).val, hblank, by simp [layOut], ?_⟩
    intro d hd
    rw [List.head?_append_of_ne_nil _ hne] at hd
    exact hblank d (List.mem_of_mem_head? hd)

/-! ## Reading what is laid out -/

/-- A token is no comment. -/
theorem Piece.isComment_eq_false {p : Piece} (h : p.tokenKind? ≠ none) : p.isComment = false := by
  obtain ⟨kind, text⟩ := p
  cases kind <;> simp [isComment, tokenKind?] at h ⊢

namespace Context

/-- Blanks are pieces of their own and change nothing. -/
theorem pieces_blanks_append (k : Context) {blanks : List Char} (h : ∀ c ∈ blanks, isBlank c = true)
    (rest : List Char) :
    k.pieces (blanks ++ rest) = blanks.map (fun c => ⟨.blank, [c]⟩) ++ k.pieces rest := by
  induction blanks with
  | nil => rfl
  | cons c blanks ih =>
    have hlegible : Piece.Legible ⟨.blank, [c]⟩ :=
      ⟨by simp [Piece.tokenKind?], true, true, c, [], [], .blank (h c List.mem_cons_self)⟩
    have hfirst : k.pieces (c :: (blanks ++ rest)) = ⟨.blank, [c]⟩ :: k.pieces (blanks ++ rest) :=
      pieces_text_append hlegible rfl fun _ _ => rfl
    rw [List.cons_append, List.map_cons, List.cons_append,
      ← ih fun d hd => h d (List.mem_cons_of_mem _ hd), hfirst]

theorem filter_pieces_blanks (k : Context) {blanks : List Char}
    (h : ∀ c ∈ blanks, isBlank c = true) (rest : List Char) :
    (k.pieces (blanks ++ rest)).filter (·.kind ≠ .blank) =
      (k.pieces rest).filter (·.kind ≠ .blank) := by
  rw [k.pieces_blanks_append h, List.filter_append, List.filter_map]
  simp

/-- Tokens that are laid out anew are read again, and besides them only blanks. -/
theorem pieces_layOut {k : Context} {gap : Nat → Gap} {ps : List Piece} {back : List Char}
    (hps : ∀ p ∈ ps, p.Legible ∧ p.tokenKind? ≠ none) (hadmits : k.AdmitsAll ps)
    (hback : ∀ c ∈ back, isBlank c = true) :
    (k.pieces (layOut gap (ps.map Piece.text) ++ back)).filter (·.kind ≠ .blank) = ps := by
  induction ps generalizing k gap with
  | nil =>
    have hnone := k.filter_pieces_blanks hback []
    rw [List.append_nil, pieces_nil] at hnone
    exact hnone
  | cons p ps ih =>
    obtain ⟨hp, htoken⟩ := hps p List.mem_cons_self
    obtain ⟨blanks, hblanks, hlaid, hhead⟩ :=
      exists_layOut_cons gap hback p.text (ps.map Piece.text)
    have hkind : p.kind ≠ .blank := by
      intro hkind
      apply htoken
      simp [Piece.tokenKind?, hkind]
    rw [List.map_cons, hlaid, pieces_text_append hp hadmits.1 fun d hd =>
        Piece.absorbs_eq_false_of_isBlank (Piece.isComment_eq_false htoken) (hhead d hd),
      List.filter_cons_of_pos (by simpa using hkind), filter_pieces_blanks _ hblanks,
      ih (fun q hq => hps q (List.mem_cons_of_mem _ hq)) hadmits.2]

end Context

/-- Tokens that are laid out do not begin with a line that names an interpreter. -/
theorem Lexer.interpreterLine_layOut (gap : Nat → Gap) {ps : List Piece} {back : List Char}
    (hps : ∀ p ∈ ps, p.Legible ∧ p.tokenKind? ≠ none) (hadmits : Context.AdmitsAll {} ps)
    (hback : ∀ c ∈ back, isBlank c = true) :
    interpreterLine (layOut gap (ps.map Piece.text) ++ back) = [] := by
  have hvisible : isBlank '#' = false ∧ isBlank '!' = false := by decide
  unfold interpreterLine
  split
  · next hprefix =>
    obtain ⟨ds, hds⟩ := List.isPrefixOf_iff_prefix.mp hprefix
    exfalso
    cases ps with
    | nil =>
      have hhash : '#' ∈ back := by
        rw [List.map_nil, layOut, List.nil_append] at hds
        rw [← hds]
        exact List.mem_cons_self
      exact absurd (hback '#' hhash) (by simp [hvisible.1])
    | cons p ps =>
      obtain ⟨hp, htoken⟩ := hps p List.mem_cons_self
      obtain ⟨blanks, -, hlaid, hhead⟩ :=
        exists_layOut_cons gap hback p.text (ps.map Piece.text)
      generalize blanks ++ (layOut (fun n => gap (n + 1)) (ps.map Piece.text) ++ back) = behind
        at hlaid hhead
      rw [List.map_cons, hlaid] at hds
      -- The first piece is the name that consists of the first character, so the second one is blank.
      have hfirst := Context.pieces_text_append hp hadmits.1 fun d hd =>
        Piece.absorbs_eq_false_of_isBlank (Piece.isComment_eq_false htoken) (hhead d hd)
      rw [← hds, List.cons_append, Context.pieces_cons, List.cons.injEq] at hfirst
      have hname : p = ⟨.identifier, ['#']⟩ := hfirst.1.symm
      rw [hname] at hds
      obtain rfl : '!' :: ds = behind := (List.cons.inj hds).2
      exact absurd (hhead '!' rfl) (by simp [hvisible.2])
  · rfl

/-! ## The main statement -/

namespace Piece

/-- Pieces that say nothing can be left out. -/
theorem filterMap_content?_filter {stays : Piece → Bool}
    (h : ∀ p, stays p = false → p.content? = none) (ps : List Piece) :
    (ps.filter stays).filterMap content? = ps.filterMap content? := by
  rw [List.filterMap_filter]
  apply List.filterMap_congr
  intro p _
  by_cases hp : stays p = true
  · rw [if_pos hp]
  · rw [if_neg hp, h p (by simpa using hp)]

theorem map_text_of_content? {ps : List Piece}
    (hps : ∀ p ∈ ps, p.Legible ∧ p.tokenKind? ≠ none) :
    (ps.filterMap content?).map (·.2.toList) = ps.map text := by
  induction ps with
  | nil => rfl
  | cons p ps ih =>
    obtain ⟨⟨herror, -⟩, htoken⟩ := hps p List.mem_cons_self
    obtain ⟨kind, hkind⟩ := Option.ne_none_iff_exists'.mp htoken
    have hcontent := content?_eq_some hkind fun hcon => herror (hcon ▸ hkind)
    rw [List.filterMap_cons_some hcontent, List.map_cons, List.map_cons,
      ih fun q hq => hps q (List.mem_cons_of_mem _ hq), String.toList_ofList]

end Piece

namespace Lexed

section

variable {text : String} (herror : ∀ t ∈ (ofText text).tokens, t.kind ≠ .error)

include herror

/-- Where no token is an error, the tokens of the program are those in front of the end token. -/
theorem significant_eq : Outline.significant (ofText text).tokens =
    Piece.tokens (Lexer.programStart text) (Piece.ofText text) := by
  rw [tokens_ofText] at herror ⊢
  unfold Outline.significant
  rw [List.filter_append, List.filter_eq_self.mpr]
  · exact List.append_nil _
  · intro t ht
    have hend := kind_ne_endOfText text ht
    have hkind := herror t (List.mem_append_left _ ht)
    simp [Token.isSignificant, hend, hkind]

theorem legible_of_mem_told {p : Piece} (hp : p ∈ told text) : p.Legible ∧ p.tokenKind? ≠ none := by
  obtain ⟨hp, htoken⟩ := List.mem_filter.mp hp
  exact ⟨Piece.legible_of_mem_ofText herror hp, Option.isSome_iff_ne_none.mp htoken⟩

omit herror in
theorem admitsAll_told (text : String) : Context.AdmitsAll {} (told text) := by
  apply (Context.admitsAll_pieces _ _).filter
  intro p _ hp
  simpa using hp

omit herror in
theorem filterMap_content?_told (text : String) :
    (told text).filterMap Piece.content? = (Piece.ofText text).filterMap Piece.content? := by
  apply Piece.filterMap_content?_filter
  intro p hp
  have hnone : p.tokenKind? = none := by simpa using hp
  simp [Piece.content?, Piece.token?, hnone]

theorem map_text_told : (told text).map Piece.text =
    (Outline.significant (ofText text).tokens).map (·.text.toList) := by
  rw [← Piece.map_text_of_content? fun _ => legible_of_mem_told herror, filterMap_content?_told,
    significant_eq herror, ← Piece.map_content_tokens, List.map_map]
  rfl

variable {back : List Char} (hback : ∀ c ∈ back, isBlank c = true)

include hback

/-- The program that is laid out anew consists of the same pieces and of blanks. -/
theorem filter_ofText_relaid (gap : Nat → Gap) :
    (Piece.ofText (relaid text gap back)).filter (·.kind ≠ .blank) = told text := by
  have hps := fun p => legible_of_mem_told (p := p) herror
  have hadmits := admitsAll_told text
  have hother : (relaid text gap back).toList =
      [] ++ (layOut gap ((told text).map Piece.text) ++ back) := by
    rw [relaid, String.toList_ofList, map_text_told herror, List.nil_append]
  have hline := Lexer.interpreterLine_layOut gap hps hadmits hback
  rw [Piece.ofText, (Lexer.program_eq_iff hother).mpr (by rw [hother]; exact hline)]
  exact Context.pieces_layOut hps hadmits hback

theorem map_content_tokens_relaid (gap : Nat → Gap) :
    (ofText (relaid text gap back)).tokens.map Token.content =
      (ofText text).tokens.map Token.content := by
  have hblank : ∀ p : Piece, decide (p.kind ≠ .blank) = false → p.content? = none := by
    intro p hp
    have hkind : p.kind = .blank := by simpa using hp
    simp [Piece.content?, Piece.token?, Piece.tokenKind?, hkind]
  rw [map_content_tokens, map_content_tokens, ← Piece.filterMap_content?_filter hblank,
    filter_ofText_relaid herror hback, filterMap_content?_told]

theorem comments_relaid (gap : Nat → Gap) : (ofText (relaid text gap back)).comments = [] := by
  rw [comments_eq_nil_iff]
  intro p hp
  by_cases hkind : p.kind = .blank
  · simp [Piece.isComment, hkind]
  · have hmem : p ∈ told text := by
      rw [← filter_ofText_relaid herror hback gap]
      exact List.mem_filter.mpr ⟨hp, by simpa using hkind⟩
    exact Piece.isComment_eq_false (legible_of_mem_told herror hmem).2

end

/-- A program without errors says the same however its tokens are laid out; comments and the line that
names an interpreter are left out. -/
theorem layout_independent (text : String) (herror : ∀ t ∈ (ofText text).tokens, t.kind ≠ .error)
    (gap : Nat → Gap) (back : List Char) (hback : ∀ c ∈ back, isBlank c = true) :
    (ofText (relaid text gap back)).tokens.map Token.content =
        (ofText text).tokens.map Token.content ∧
      (ofText (relaid text gap back)).comments = [] ∧
      (Outline.ofTokens (ofText (relaid text gap back)).tokens).statements.map Statement.content =
        (Outline.ofTokens (ofText text).tokens).statements.map Statement.content ∧
      (Outline.ofTokens (ofText (relaid text gap back)).tokens).problems.map Problem.content =
        (Outline.ofTokens (ofText text).tokens).problems.map Problem.content := by
  have htokens := map_content_tokens_relaid herror hback gap
  have hsignificant := Token.map_content_significant htokens
  have herror' : ∀ t ∈ (ofText (relaid text gap back)).tokens, t.kind ≠ .error := by
    intro t ht
    have hmem : t.content ∈ (ofText text).tokens.map Token.content := by
      rw [← htokens]
      exact List.mem_map_of_mem ht
    obtain ⟨u, hu, hsame⟩ := List.mem_map.mp hmem
    have hkind : u.kind = t.kind := congrArg Prod.fst hsame
    rw [← hkind]
    exact herror u hu
  refine ⟨htokens, comments_relaid herror hback gap, Statement.map_content_ofTokens hsignificant, ?_⟩
  rw [problems_eq_ofDelimiters herror, problems_eq_ofDelimiters herror']
  exact Problem.map_content_ofDelimiters hsignificant _ _ []

/-- A script and what it says with one token to a line. -/
theorem layout_independent_one_token_to_a_line :
    ∃ gap : Nat → Gap, relaid "#!run\nimport/*a*/'b';" gap [] = "import\n'b'\n;" ∧
      (ofText "import\n'b'\n;").tokens.map Token.content =
        (ofText "#!run\nimport/*a*/'b';").tokens.map Token.content ∧
      (ofText "import\n'b'\n;").comments = [] ∧
      (Outline.ofTokens (ofText "import\n'b'\n;").tokens).statements.map Statement.content =
        (Outline.ofTokens (ofText "#!run\nimport/*a*/'b';").tokens).statements.map
          Statement.content ∧
      (Outline.ofTokens (ofText "import\n'b'\n;").tokens).problems.map Problem.content =
        (Outline.ofTokens (ofText "#!run\nimport/*a*/'b';").tokens).problems.map Problem.content := by
  let gap : Nat → Gap := fun _ => ⟨['\n'], by simp, List.forall_mem_singleton.mpr (by decide)⟩
  have herror : ∀ t ∈ (ofText "#!run\nimport/*a*/'b';").tokens, t.kind ≠ .error := by decide +kernel
  have hrelaid : relaid "#!run\nimport/*a*/'b';" gap [] = "import\n'b'\n;" := by decide +kernel
  have hsame := layout_independent _ herror gap [] (by simp)
  rw [hrelaid] at hsame
  exact ⟨gap, hrelaid, hsame⟩

end Lexed

end ModuleBuild
