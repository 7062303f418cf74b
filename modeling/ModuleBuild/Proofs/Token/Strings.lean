import Mathlib.Data.List.DropRight
import ModuleBuild.Proofs.Outline.Partition
import ModuleBuild.Proofs.Token.Literals

/-!
# Where strings end

A character between the quotes of a string is escaped if an odd number of backslashes stands right in
front of it. The reader of strings does not count: it takes a backslash together with the character
behind it. Both come to the same, because the reader never stops between the two, so that the number of
backslashes behind which it stands is always even.

Main statements: `isUnescaped_of_isBody`, which is this invariant; `Reading.string_cases`, by which a
string ends with a quote, with a line feed or with the text; and `strings_ofText`, about the strings of a
text and the specifiers among them.
-/

namespace ModuleBuild

open Text

namespace Text

/-! ## Backslashes -/

/-- Whether the character behind these is escaped: they end in an odd number of backslashes. -/
def Escapes (cs : List Char) : Prop := (cs.rtakeWhile (· == '\\')).length % 2 = 1

/-- A backslash escapes the next character unless it is escaped itself, and no other character does. -/
theorem escapes_concat (cs : List Char) (c : Char) :
    Escapes (cs ++ [c]) ↔ c = '\\' ∧ ¬Escapes cs := by
  unfold Escapes
  by_cases hc : c = '\\'
  · subst hc
    rw [List.rtakeWhile_concat_pos _ _ _ (by simp), List.length_append, List.length_singleton]
    simp only [true_and]
    omega
  · rw [List.rtakeWhile_concat_neg _ _ _ (by simpa using hc)]
    simp [hc]

/-- What stands at a place among characters is the last of them or stands among those before. -/
theorem split_concat {cs before after : List Char} {c d : Char}
    (h : cs ++ [c] = before ++ d :: after) :
    before = cs ∧ d = c ∧ after = [] ∨ ∃ front, after = front ++ [c] ∧ cs = before ++ d :: front := by
  rcases List.eq_nil_or_concat after with rfl | ⟨front, e, rfl⟩
  · obtain ⟨rfl, hlast⟩ := List.append_inj' h rfl
    exact Or.inl ⟨rfl, (List.singleton_inj.mp hlast).symm, rfl⟩
  · rw [List.concat_eq_append] at h ⊢
    have hsplit : cs ++ [c] = (before ++ d :: front) ++ [e] := by simpa using h
    obtain ⟨rfl, hlast⟩ := List.append_inj' hsplit rfl
    exact Or.inr ⟨front, by rw [hlast], rfl⟩

/-- The characters leave a string with this quote open: neither the quote nor a line feed stands among
them unescaped. -/
def LeavesOpen (quote : Char) (cs : List Char) : Prop :=
  ∀ before c after, cs = before ++ c :: after → ¬Escapes before → c ≠ quote ∧ c ≠ '\n'

theorem leavesOpen_nil (quote : Char) : LeavesOpen quote [] := by
  intro before c after h
  simp at h

theorem LeavesOpen.concat {quote c : Char} {cs : List Char} (h : LeavesOpen quote cs)
    (hc : ¬Escapes cs → c ≠ quote ∧ c ≠ '\n') : LeavesOpen quote (cs ++ [c]) := by
  intro before d after hsplit hplain
  rcases split_concat hsplit with ⟨rfl, rfl, -⟩ | ⟨front, -, rfl⟩
  · exact hc hplain
  · exact h before d front rfl hplain

/-- The place behind the characters, which leave the string open, is not escaped. -/
structure IsUnescaped (quote : Char) (cs : List Char) : Prop where
  leavesOpen : LeavesOpen quote cs
  not_escapes : ¬Escapes cs

theorem isUnescaped_nil (quote : Char) : IsUnescaped quote [] :=
  ⟨leavesOpen_nil quote, by simp [Escapes]⟩

/-- A backslash and the character behind it lead from one such place to the next. -/
theorem IsUnescaped.escape {quote : Char} {cs : List Char} (h : IsUnescaped quote cs)
    (hquote : quote ≠ '\\') (c : Char) : IsUnescaped quote (cs ++ ['\\'] ++ [c]) := by
  have hescapes : Escapes (cs ++ ['\\']) := (escapes_concat _ _).mpr ⟨rfl, h.not_escapes⟩
  refine ⟨?_, ?_⟩
  · have hbackslash : LeavesOpen quote (cs ++ ['\\']) :=
      h.leavesOpen.concat fun _ => ⟨hquote.symm, by decide⟩
    exact hbackslash.concat fun hplain => absurd hescapes hplain
  · rw [escapes_concat]
    exact fun ⟨_, hplain⟩ => hplain hescapes

theorem IsUnescaped.plain {quote c : Char} {cs : List Char} (h : IsUnescaped quote cs)
    (hescape : c ≠ '\\') (hquote : c ≠ quote) (hline : c ≠ '\n') : IsUnescaped quote (cs ++ [c]) := by
  refine ⟨h.leavesOpen.concat fun _ => ⟨hquote, hline⟩, ?_⟩
  rw [escapes_concat]
  exact fun ⟨hbackslash, _⟩ => hescape hbackslash

/-- What may stand between quotes leads from one unescaped place to another. -/
theorem isUnescaped_of_isBody {quote : Char} {before body : List Char} (hquote : quote ≠ '\\')
    (hbody : Quoted.IsBody quote body) (h : IsUnescaped quote before) :
    IsUnescaped quote (before ++ body) := by
  induction hbody generalizing before with
  | nil => rwa [List.append_nil]
  | @escape c cs _ ih => simpa using ih (h.escape hquote c)
  | @plain c cs hescape hplain hline _ ih => simpa using ih (h.plain hescape hplain hline)

end Text

/-! ## Reading a string -/

namespace Reading

/-- A string is closed by a quote, cut by a line feed, or ended by the text, and then perhaps behind a
backslash. -/
theorem string_cases (quote : Char) (cs : List Char) :
    (∃ body rest, Quoted.IsBody quote body ∧ cs = body ++ quote :: rest ∧
      string quote cs = ⟨body ++ [quote], rest, true⟩) ∨
    (∃ body rest, Quoted.IsBody quote body ∧ cs = body ++ '\n' :: rest ∧
      string quote cs = ⟨body, '\n' :: rest, false⟩) ∨
    (∃ body, Quoted.IsBody quote body ∧ (cs = body ∨ cs = body ++ ['\\']) ∧
      string quote cs = ⟨cs, [], false⟩) := by
  fun_induction string quote cs with
  | case1 => exact Or.inr (Or.inr ⟨[], .nil, Or.inl rfl, rfl⟩)
  | case2 => exact Or.inr (Or.inl ⟨[], [], .nil, rfl, rfl⟩)
  | case3 => exact Or.inr (Or.inr ⟨[], .nil, Or.inr rfl, rfl⟩)
  | case4 => exact Or.inl ⟨[], [], .nil, rfl, rfl⟩
  | case5 c hline hescape hquote =>
    exact Or.inr (Or.inr ⟨[c], .plain hescape hquote hline .nil, Or.inl rfl, rfl⟩)
  | case6 d cs => exact Or.inr (Or.inl ⟨[], d :: cs, .nil, rfl, rfl⟩)
  | case7 d cs hline ih =>
    rcases ih with ⟨body, rest, hbody, rfl, h⟩ | ⟨body, rest, hbody, rfl, h⟩ | ⟨body, hbody, hcs, h⟩
    · exact Or.inl ⟨'\\' :: d :: body, rest, .escape d hbody, rfl, by rw [h]; rfl⟩
    · exact Or.inr (Or.inl ⟨'\\' :: d :: body, rest, .escape d hbody, rfl, by rw [h]; rfl⟩)
    · refine Or.inr (Or.inr ⟨'\\' :: d :: body, .escape d hbody, ?_, by rw [h]; rfl⟩)
      exact hcs.imp (fun hcs => by rw [hcs]) fun hcs => by rw [hcs]; rfl
  | case8 d cs => exact Or.inl ⟨[], d :: cs, .nil, rfl, rfl⟩
  | case9 c d cs hline hescape hquote ih =>
    rcases ih with ⟨body, rest, hbody, hcs, h⟩ | ⟨body, rest, hbody, hcs, h⟩ | ⟨body, hbody, hcs, h⟩
    · refine Or.inl ⟨c :: body, rest, .plain hescape hquote hline hbody, ?_, by rw [h]; rfl⟩
      rw [hcs, List.cons_append]
    · refine Or.inr (Or.inl ⟨c :: body, rest, .plain hescape hquote hline hbody, ?_, by rw [h]; rfl⟩)
      rw [hcs, List.cons_append]
    · refine Or.inr (Or.inr ⟨c :: body, .plain hescape hquote hline hbody, ?_, by rw [h]; rfl⟩)
      exact hcs.imp (fun hcs => by rw [hcs]) fun hcs => by rw [hcs, List.cons_append]

end Reading

/-- A quote begins a string in every context. -/
theorem Context.read_quote (k : Context) {quote : Char} (hquote : quote = '"' ∨ quote = '\'')
    (cs : List Char) :
    k.read quote cs =
      Piece.ofReading [quote] .string .unterminatedString (Reading.string quote cs) := by
  rcases hquote with rfl | rfl <;> rfl

/-! ## The tokens of a text -/

/-- A token is what some context reads at its place, unless it is the end of the text. -/
theorem Lexed.cases_of_mem_tokens {text : String} {t : Token} (ht : t ∈ (ofText text).tokens) :
    (∃ (k : Context) (before : List Char) (c : Char) (cs : List Char),
      text.toList = before ++ c :: cs ∧ t.span.start = byteLength before ∧
        (k.read c cs).1.token? (byteLength before) = some t) ∨
      t = Token.atEnd (byteLength text.toList) := by
  refine (mem_tokens_iff.mp ht).imp_left ?_
  rintro ⟨qs, p, rs, hsplit, htok⟩
  obtain ⟨c, cs, hprogram, rfl, -⟩ := Context.eq_read_of_pieces_eq hsplit
  refine ⟨Context.afterAll {} qs, _, c, cs, Lexer.toList_eq_append hprogram, ?_, ?_⟩
  · rw [Lexer.byteLength_before, Piece.span_of_token? htok, Piece.spanAt_start]
  · rwa [Lexer.byteLength_before]

/-- A token that begins in front of a character is what some context reads there. -/
theorem Lexed.exists_read_of_mem_tokens {text : String} {t : Token} {before cs : List Char} {c : Char}
    (ht : t ∈ (ofText text).tokens) (htext : text.toList = before ++ c :: cs)
    (hstart : t.span.start = byteLength before) :
    ∃ k : Context, (k.read c cs).1.token? (byteLength before) = some t := by
  rcases cases_of_mem_tokens ht with ⟨k, before', d, ds, htext', hstart', hread⟩ | rfl
  · obtain ⟨rfl, rfl, rfl⟩ := split_unique (htext.symm.trans htext') (hstart.symm.trans hstart')
    exact ⟨k, hread⟩
  · have hbytes := congrArg byteLength htext
    have hpos := c.utf8Size_pos
    simp only [Token.atEnd, byteLength_append, byteLength_cons] at hstart hbytes
    omega

/-- The token that a string is whose opening quote stands behind `before` and in front of the given
characters. -/
inductive Token.ReadsString (before : List Char) (quote : Char) : List Char → Token → Prop where
  /-- The first unescaped quote closes the string, if no unescaped line feed comes before it. -/
  | closed {body : List Char} (rest : List Char) (h : IsUnescaped quote body) :
    ReadsString before quote (body ++ quote :: rest)
      { kind := .string
        span := ⟨byteLength before, byteLength (before ++ quote :: (body ++ [quote]))⟩
        text := String.ofList (quote :: (body ++ [quote])) }
  /-- An unescaped line feed in front of that quote cuts the string. -/
  | cut {body : List Char} (rest : List Char) (h : IsUnescaped quote body) :
    ReadsString before quote (body ++ '\n' :: rest)
      { kind := .error
        span := ⟨byteLength before, byteLength (before ++ quote :: body)⟩
        text := "Unterminated string literal."
        code := some 1002 }
  /-- Otherwise the string goes on to the end of the text. -/
  | ended {body : List Char} (h : LeavesOpen quote body) :
    ReadsString before quote body
      { kind := .error
        span := ⟨byteLength before, byteLength (before ++ quote :: body)⟩
        text := "Unterminated string literal."
        code := some 1002 }

theorem Token.readsString_of_token? {k : Context} {before cs : List Char} {quote : Char} {t : Token}
    (hquote : quote = '"' ∨ quote = '\'')
    (h : (k.read quote cs).1.token? (byteLength before) = some t) :
    ReadsString before quote cs t := by
  have hescape : quote ≠ '\\' := by
    rcases hquote with rfl | rfl <;> decide
  have hunescaped : ∀ {body}, Quoted.IsBody quote body → IsUnescaped quote body :=
    fun hbody => isUnescaped_of_isBody hescape hbody (isUnescaped_nil quote)
  rw [k.read_quote hquote] at h
  rcases Reading.string_cases quote cs with ⟨body, rest, hbody, rfl, hstring⟩ |
    ⟨body, rest, hbody, rfl, hstring⟩ | ⟨body, hbody, hcs, hstring⟩
  · rw [hstring] at h
    obtain rfl := Option.some.inj h
    have htoken := @ReadsString.closed before quote body rest (hunescaped hbody)
    rwa [byteLength_append] at htoken
  · rw [hstring] at h
    obtain rfl := Option.some.inj h
    have htoken := @ReadsString.cut before quote body rest (hunescaped hbody)
    rwa [byteLength_append] at htoken
  · have hopen : LeavesOpen quote cs := by
      rcases hcs with rfl | rfl
      · exact (hunescaped hbody).leavesOpen
      · exact (hunescaped hbody).leavesOpen.concat fun _ => ⟨hescape.symm, by decide⟩
    rw [hstring] at h
    obtain rfl := Option.some.inj h
    have htoken := @ReadsString.ended before quote cs hopen
    rwa [byteLength_append] at htoken

/-- A string begins with a quote. -/
theorem Piece.Reads.isQuote {a b : Bool} {c : Char} {cs rest : List Char} {p : Piece}
    (h : Reads a b c cs p rest) (hkind : p.tokenKind? = some .string) : c = '"' ∨ c = '\'' := by
  cases h with
  | string hc => exact hc
  | _ => simp [tokenKind?] at hkind

theorem Lexed.exists_quote_of_mem_tokens {text : String} {t : Token} (ht : t ∈ (ofText text).tokens)
    (hkind : t.kind = .string) :
    ∃ before quote cs, (quote = '"' ∨ quote = '\'') ∧ text.toList = before ++ quote :: cs ∧
      t.span.start = byteLength before := by
  rcases cases_of_mem_tokens ht with ⟨k, before, c, cs, htext, hstart, hread⟩ | rfl
  · have hpiece := Piece.kind_of_token? hread
    rw [hkind] at hpiece
    exact ⟨before, c, cs, Piece.Reads.isQuote (Piece.reads_read ..) hpiece, htext, hstart⟩
  · cases hkind

/-! ## Specifiers -/

/-- Without its quotes, a quoted name is what stands between them. -/
theorem Specifier.unquoted_quoted {quote : Char} (hquote : quote = '"' ∨ quote = '\'')
    (body : List Char) (span : Span) :
    (⟨String.ofList (quote :: (body ++ [quote])), span⟩ : Specifier).unquoted = String.ofList body := by
  have hbyte : byteLength [quote] = 1 := by
    rcases hquote with rfl | rfl <;> rfl
  have hslice := slice?_append [quote] body [quote]
  have hstop : byteLength (quote :: (body ++ [quote])) - 1 = byteLength [quote] + byteLength body := by
    have hsplit : quote :: (body ++ [quote]) = [quote] ++ body ++ [quote] := by simp
    rw [hsplit, byteLength_append, byteLength_append, hbyte]
    omega
  rw [hbyte] at hslice hstop
  rw [unquoted, String.toList_ofList, hstop]
  exact congrArg (fun s => String.ofList (s.getD [])) hslice

/-- A token that begins in front of a quote is the string that begins there: it ends behind the first
unescaped quote of that kind, unless an unescaped line feed or the end of the text comes first, and then
it is the error that says so. The specifier of an import or re-export is a string of the text, and its
name is what stands between the quotes. -/
theorem strings_ofText (text : String) :
    (∀ t ∈ (Lexed.ofText text).tokens, ∀ before quote cs, text.toList = before ++ quote :: cs →
      (quote = '"' ∨ quote = '\'') → t.span.start = byteLength before →
        Token.ReadsString before quote cs t) ∧
    ∀ s ∈ (Outline.ofTokens (Lexed.ofText text).tokens).statements, ∀ specifier,
      s.specifier? = some specifier →
        ∃ before quote after, (quote = '"' ∨ quote = '\'') ∧
          text.toList = before ++ quote :: (specifier.unquoted.toList ++ quote :: after) ∧
          specifier.span.start = byteLength before ∧
          specifier.raw.toList = quote :: (specifier.unquoted.toList ++ [quote]) := by
  have hstrings : ∀ t ∈ (Lexed.ofText text).tokens, ∀ before quote cs,
      text.toList = before ++ quote :: cs → (quote = '"' ∨ quote = '\'') →
        t.span.start = byteLength before → Token.ReadsString before quote cs t := by
    intro t ht before quote cs htext hquote hstart
    obtain ⟨k, hread⟩ := Lexed.exists_read_of_mem_tokens ht htext hstart
    exact Token.readsString_of_token? hquote hread
  refine ⟨hstrings, ?_⟩
  intro s hs specifier hspecifier
  obtain ⟨t, ht, hkind, rfl⟩ := Lexed.exists_string_of_mem_statements hs hspecifier
  obtain ⟨before, quote, cs, hquote, htext, hstart⟩ := Lexed.exists_quote_of_mem_tokens ht hkind
  refine ⟨before, quote, ?_⟩
  cases hstrings t ht before quote cs htext hquote hstart with
  | closed rest h =>
    rw [Specifier.unquoted_quoted hquote]
    exact ⟨rest, hquote, by rw [htext, String.toList_ofList], rfl, by simp⟩
  | cut | ended => cases hkind

/-- The escaped quote in the specifier of an import does not close it. -/
theorem strings_of_escaped_quote :
    ∃ t ∈ (Lexed.ofText "import 'a\\'b';").tokens, t.kind = .string ∧
      Token.ReadsString "import ".toList '\'' "a\\'b';".toList t ∧
      ∃ s ∈ (Outline.ofTokens (Lexed.ofText "import 'a\\'b';").tokens).statements, ∃ specifier,
        s.specifier? = some specifier ∧ specifier.unquoted = "a\\'b" ∧
        ∃ quote, specifier.raw.toList = quote :: (specifier.unquoted.toList ++ [quote]) := by
  obtain ⟨htokens, hspecifiers⟩ := strings_ofText "import 'a\\'b';"
  have htoken : ⟨.string, ⟨7, 13⟩, "'a\\'b'", none⟩ ∈ (Lexed.ofText "import 'a\\'b';").tokens := by
    decide +kernel
  have hstatement : ⟨.importFrom ⟨"'a\\'b'", ⟨7, 13⟩⟩ false, ⟨0, 14⟩⟩ ∈
      (Outline.ofTokens (Lexed.ofText "import 'a\\'b';").tokens).statements := by
    decide +kernel
  obtain ⟨-, quote, -, -, -, -, hraw⟩ := hspecifiers _ hstatement _ rfl
  exact ⟨_, htoken, rfl, htokens _ htoken _ _ _ rfl (Or.inr rfl) rfl, _, hstatement, _, rfl, by decide,
    quote, hraw⟩

end ModuleBuild
