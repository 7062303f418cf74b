import ModuleBuild.Proofs.Source.LineEnds
import ModuleBuild.Proofs.Token.Contents

/-!
# Tokens and line ends of two characters

When a carriage return is put in front of each line feed, the pieces of a text are read again. Between
pieces it is a blank. Block comments and templates take it in like any other character. Line comments,
and the strings and regular expressions that a line feed leaves open, take in the one in front of the
line feed behind them. The exception is a backslash in front of a line feed in a string or a regular
expression: it takes the carriage return with it, and the line feed then ends the line.

Main statements: `Context.read_withReturns`, about one piece; `Context.tokens_pieces_withReturns`, about
the pieces of a text; and `Reading.string_withReturns_open`, about the exception.
-/

namespace ModuleBuild

open Text

namespace Reading

/-! ## Readers -/

/-- The reading with a carriage return in front of each line feed. -/
def withReturns (r : Reading) : Reading :=
  ⟨Text.withReturns r.taken, Text.withReturns r.rest, r.closed⟩

theorem withReturns_cons {c : Char} (hc : c ≠ '\n') (r : Reading) :
    (cons c r).withReturns = cons c r.withReturns := by
  rw [withReturns, cons_taken, Text.withReturns_cons hc]
  rfl

theorem withReturns_feed (r : Reading) :
    (cons '\n' r).withReturns = cons '\r' (cons '\n' r.withReturns) := rfl

theorem template_feed (cs : List Char) :
    template ('\r' :: '\n' :: cs) = cons '\r' (cons '\n' (template cs)) := by
  simp [template_cons]

theorem blockComment_feed (cs : List Char) :
    blockComment ('\r' :: '\n' :: cs) = cons '\r' (cons '\n' (blockComment cs)) := by
  simp [blockComment_cons]

theorem template_withReturns (cs : List Char) :
    template (Text.withReturns cs) = (template cs).withReturns := by
  fun_induction template cs with
  | case1 | case2 | case3 => rfl
  | case4 c hback hquote =>
    by_cases hfeed : c = '\n'
    · subst hfeed
      rfl
    · rw [withReturns_cons hfeed, Text.withReturns_cons hfeed, template_cons, if_neg hback,
        if_neg hquote, if_neg (by simp)]
      rfl
  | case5 d cs ih =>
    rw [withReturns_cons (by decide), Text.withReturns_cons (by decide), template_cons, if_pos rfl]
    by_cases hfeed : d = '\n'
    · -- The backslash takes the carriage return, and the line feed is a character like any other.
      subst hfeed
      rw [withReturns_feed, ← ih, Text.withReturns_feed, behindEscape]
      simp [template_cons]
    · rw [withReturns_cons hfeed, Text.withReturns_cons hfeed, behindEscape, ih]
  | case6 d cs hback => rw [Text.withReturns_cons (by decide), template_cons, if_neg hback]; rfl
  | case7 c d cs hback hquote hmark =>
    obtain ⟨rfl, rfl⟩ := hmark
    simp [Text.withReturns_cons, template_cons, complete, withReturns]
  | case8 c d cs hback hquote hmark ih =>
    by_cases hfeed : c = '\n'
    · subst hfeed
      rw [withReturns_feed, ← ih, Text.withReturns_feed, template_feed]
    · have hhead : (Text.withReturns (d :: cs)).head? = some '{' ↔ d = '{' := by
        rw [head?_withReturns_iff (by decide) (by decide), List.head?_cons, Option.some.injEq]
      rw [withReturns_cons hfeed, Text.withReturns_cons hfeed, template_cons, if_neg hback,
        if_neg hquote, if_neg (by rwa [hhead]), ih]

theorem blockComment_withReturns (cs : List Char) :
    blockComment (Text.withReturns cs) = (blockComment cs).withReturns := by
  fun_induction blockComment cs with
  | case1 => rfl
  | case2 c =>
    by_cases hfeed : c = '\n'
    · subst hfeed
      rfl
    · rw [withReturns_cons hfeed, Text.withReturns_cons hfeed]
      rfl
  | case3 c d cs hmark =>
    obtain ⟨rfl, rfl⟩ := hmark
    simp [Text.withReturns_cons, blockComment_cons, complete, withReturns]
  | case4 c d cs hmark ih =>
    by_cases hfeed : c = '\n'
    · subst hfeed
      rw [withReturns_feed, ← ih, Text.withReturns_feed, blockComment_feed]
    · have hhead : (Text.withReturns (d :: cs)).head? = some '/' ↔ d = '/' := by
        rw [head?_withReturns_iff (by decide) (by decide), List.head?_cons, Option.some.injEq]
      rw [withReturns_cons hfeed, Text.withReturns_cons hfeed, blockComment_cons,
        if_neg (by rwa [hhead]), ih]

/-- An escaped line feed leaves a string open when a carriage return stands in front of it. -/
theorem string_withReturns_open {quote : Char} {cs : List Char}
    (h : '\n' ∈ (string quote cs).taken) : (string quote (Text.withReturns cs)).closed = false := by
  fun_induction string quote cs with
  | case1 | case2 | case3 | case6 => simp at h
  | case4 hline | case5 c hline | case8 d cs hline => simp [Ne.symm hline] at h
  | case7 d cs hline ih =>
    rw [Text.withReturns_cons hline, string_cons, if_neg hline, if_pos rfl, cons_closed]
    by_cases hfeed : d = '\n'
    · subst hfeed
      simp [behindEscape, string_cons]
    · rw [Text.withReturns_cons hfeed, behindEscape, cons_closed]
      exact ih (by simpa [Ne.symm hfeed] using h)
  | case9 c d cs hline hback hquote ih =>
    rw [Text.withReturns_cons hline, string_cons, if_neg hline, if_neg hback, if_neg hquote, cons_closed]
    exact ih (by simpa [Ne.symm hline] using h)

theorem regex_withReturns_open {inClass : Bool} {cs : List Char}
    (h : '\n' ∈ (regex inClass cs).taken) : (regex inClass (Text.withReturns cs)).closed = false := by
  fun_induction regex inClass cs with
  | case1 | case2 | case5 => simp at h
  | case3 inClass c hline | case4 inClass c hline | case9 inClass c d cs hline =>
    simp [Ne.symm hline] at h
  | case6 inClass d cs hline ih =>
    rw [Text.withReturns_cons hline, regex_cons, if_neg hline, if_pos rfl, cons_closed]
    by_cases hfeed : d = '\n'
    · subst hfeed
      simp [behindEscape, regex_cons]
    · rw [Text.withReturns_cons hfeed, behindEscape, cons_closed]
      exact ih (by simpa [Ne.symm hfeed] using h)
  | case7 inClass d cs hline hback ih =>
    rw [Text.withReturns_cons hline, regex_cons, if_neg hline, if_neg hback, if_pos rfl, cons_closed]
    exact ih (by simpa using h)
  | case8 inClass d cs hline hback hbegin ih =>
    rw [Text.withReturns_cons hline, regex_cons, if_neg hline, if_neg hback, if_neg hbegin, if_pos rfl,
      cons_closed]
    exact ih (by simpa using h)
  | case10 inClass c d cs hline hback hbegin hend hmark ih =>
    rw [Text.withReturns_cons hline, regex_cons, if_neg hline, if_neg hback, if_neg hbegin, if_neg hend,
      if_neg hmark, cons_closed]
    exact ih (by simpa [Ne.symm hline] using h)

end Reading

/-- What is taken of the text in front of `rest` when a carriage return is put in front of each line
feed: the one at the end of the line may be taken too, and then it is missing in `rest'`. -/
def Text.LeavesFeed (rest returns rest' : List Char) : Prop :=
  withReturns rest = returns ++ rest' ∧ (returns = [] ∨ returns = ['\r'])

/-- Taking the rest of a line takes the carriage return at its end. -/
theorem Text.takeWhile_withReturns (cs : List Char) :
    ∃ returns, (withReturns cs).takeWhile (· != '\n') = cs.takeWhile (· != '\n') ++ returns ∧
      LeavesFeed (cs.dropWhile (· != '\n')) returns ((withReturns cs).dropWhile (· != '\n')) := by
  induction cs with
  | nil => exact ⟨[], rfl, rfl, Or.inl rfl⟩
  | cons c cs ih =>
    by_cases hfeed : c = '\n'
    · subst hfeed
      exact ⟨['\r'], by simp, by simp [LeavesFeed]⟩
    · obtain ⟨returns, htake, hdrop⟩ := ih
      refine ⟨returns, ?_, ?_⟩
      · simpa [withReturns_cons hfeed, hfeed] using htake
      · simpa [withReturns_cons hfeed, hfeed] using hdrop

/-- The rest of a line ends the text or is in front of a line feed. -/
theorem Text.withReturns_line {cs taken rest : List Char} (hcs : taken ++ rest = cs)
    (hline : '\n' ∉ taken) (hrest : ∀ c, rest.head? = some c → c = '\n') :
    rest = [] ∧ withReturns cs = cs ∨
      ∃ es, rest = '\n' :: es ∧ withReturns cs = taken ++ '\r' :: '\n' :: withReturns es := by
  cases rest with
  | nil =>
    rw [List.append_nil] at hcs
    exact Or.inl ⟨rfl, withReturns_eq_self (hcs ▸ hline)⟩
  | cons d es =>
    obtain rfl := hrest d rfl
    refine Or.inr ⟨es, rfl, ?_⟩
    rw [← hcs, withReturns_append, withReturns_eq_self hline, withReturns_feed]

namespace Reading

/-- A string without a line feed that is left open is left open again. -/
theorem string_withReturns_stopped {quote : Char} (hquote : quote ≠ '\r') {cs : List Char}
    (hopen : (string quote cs).closed = false) (hline : '\n' ∉ (string quote cs).taken) :
    ∃ returns rest', string quote (Text.withReturns cs) =
        ⟨(string quote cs).taken ++ returns, rest', false⟩ ∧
      LeavesFeed (string quote cs).rest returns rest' := by
  rcases withReturns_line (string_taken_append quote cs) hline (fun _ => head?_rest_string hopen) with
    ⟨hrest, hcs⟩ | ⟨es, hrest, hcs⟩
  · refine ⟨[], [], ?_, by rw [hrest]; rfl, Or.inl rfl⟩
    rw [hcs, List.append_nil, ← hrest, ← hopen]
  · refine ⟨['\r'], '\n' :: Text.withReturns es, ?_, by rw [hrest]; rfl, Or.inr rfl⟩
    rw [hcs, string_append_behind hopen (by simp [hrest])]
    simp [string_cons, behind, hquote.symm]

theorem regex_withReturns_stopped {inClass : Bool} {cs : List Char}
    (hopen : (regex inClass cs).closed = false) (hline : '\n' ∉ (regex inClass cs).taken) :
    ∃ returns rest', regex inClass (Text.withReturns cs) =
        ⟨(regex inClass cs).taken ++ returns, rest', false⟩ ∧
      LeavesFeed (regex inClass cs).rest returns rest' := by
  rcases withReturns_line (regex_taken_append inClass cs) hline (fun _ => head?_rest_regex hopen) with
    ⟨hrest, hcs⟩ | ⟨es, hrest, hcs⟩
  · refine ⟨[], [], ?_, by rw [hrest]; rfl, Or.inl rfl⟩
    rw [hcs, List.append_nil, ← hrest, ← hopen]
  · refine ⟨['\r'], '\n' :: Text.withReturns es, ?_, by rw [hrest]; rfl, Or.inr rfl⟩
    obtain ⟨inClass', hbehind⟩ := regex_append_behind hopen (by simp [hrest])
    rw [hcs, hbehind]
    simp [regex_cons, behind]

theorem not_mem_number (hexadecimal : Bool) (previous : Char) (cs : List Char) :
    '\n' ∉ (number hexadecimal previous cs).1 := by
  fun_induction number hexadecimal previous cs with
  | case1 | case3 => exact List.not_mem_nil
  | case2 previous c cs hc taken rest heq ih =>
    rw [heq] at ih
    have hfeed : c ≠ '\n' := by
      rintro rfl
      simp [continuesNumber] at hc
    simpa [hfeed.symm] using ih

end Reading

namespace Piece

/-! ## One piece -/

/-- Whether such a piece may have more than one line. -/
def Kind.spansLines : Kind → Bool
  | .blockComment | .template | .fault .unterminatedComment | .fault .unterminatedTemplate => true
  | _ => false

/-- A string or a regular expression, finished or not, without an escaped line feed. -/
def StaysOnLine (p : Piece) : Prop :=
  p.kind = .string ∨ p.kind = .regex ∨ p.kind = .fault .unterminatedString ∨
    p.kind = .fault .unterminatedRegex → '\n' ∉ p.text

/-- What is read with carriage returns in front of the line feeds, where `p` is read without them and
leaves `rest`: the same, but what the line feed ends may have taken the carriage return. -/
structure IsReturned (p : Piece) (rest : List Char) (returns : List Char) (p' : Piece)
    (rest' : List Char) : Prop where
  kind : p'.kind = p.kind
  text : p'.text = withReturns p.text ++ returns
  leaves : LeavesFeed rest returns rest'
  takes : returns ≠ [] → p.kind = .lineComment ∨ p.tokenKind? = some .error

variable {a b : Bool} {c : Char} {cs rest : List Char} {p : Piece}

theorem Reads.not_mem_feed (h : Reads a b c cs p rest) (hc : c ≠ '\n') (hp : p.StaysOnLine)
    (hlines : p.kind.spansLines = false) : '\n' ∉ p.text := by
  cases h with
  | string | openString | regex | openRegex => exact hp (by simp)
  | blockComment | openComment | template | openTemplate => cases hlines
  | blank | punct | invalid => simpa using hc.symm
  | lineComment ds =>
    have hbody : '\n' ∉ ds.takeWhile (· != '\n') := fun hmem => by
      simpa using List.mem_takeWhile_imp hmem
    simpa using hbody
  | number =>
    have hbody := Reading.not_mem_number (c = '0' && (cs.head? = some 'x' || cs.head? = some 'X')) c cs
    simpa [Piece.number, hc.symm] using hbody
  | name =>
    have hbody : '\n' ∉ cs.takeWhile continuesName := fun hmem =>
      absurd (List.mem_takeWhile_imp hmem) (by decide)
    simpa [hc.symm] using hbody

/-- A token in one line is read again. -/
theorem Reads.returned_of_line (h : Reads a b c cs p rest) (hp : p.tokenKind? ≠ some .error)
    (hcomment : p.isComment = false) (hline : '\n' ∉ p.text) :
    Reads a b c (withReturns cs) p (withReturns rest) := by
  have htext := h.text_eq_cons
  have hcs : cs = p.text.tail ++ rest := by
    have happend := read_append a b c cs
    rw [h.read_eq hp, htext, List.cons_append] at happend
    exact (List.cons.inj happend).2.symm
  have htail : '\n' ∉ p.text.tail := fun hmem => hline (List.mem_of_mem_tail hmem)
  rw [hcs, withReturns_append, withReturns_eq_self htail]
  refine h.append hp h.fits fun d hd => ?_
  cases rest with
  | nil => cases hd
  | cons e es =>
    by_cases hfeed : e = '\n'
    · subst hfeed
      obtain rfl : '\r' = d := Option.some.inj hd
      exact absorbs_eq_false_of_isBlank hcomment (by decide)
    · rw [withReturns_cons hfeed] at hd
      exact h.absorbs_eq_false hd

theorem isReturned_withReturns (p : Piece) (rest : List Char) :
    p.IsReturned rest [] ⟨p.kind, withReturns p.text⟩ (withReturns rest) where
  kind := rfl
  text := (List.append_nil _).symm
  leaves := ⟨rfl, Or.inl rfl⟩
  takes := fun h => absurd rfl h

theorem isReturned_self (hline : '\n' ∉ p.text) (rest : List Char) :
    p.IsReturned rest [] p (withReturns rest) := by
  have hreturned := p.isReturned_withReturns rest
  rwa [withReturns_eq_self hline] at hreturned

/-- A piece that does not begin with a line feed is read again, unless it is a string or a regular
expression with an escaped line feed. -/
theorem Reads.exists_returned (h : Reads a b c cs p rest) (hc : c ≠ '\n') (hp : p.StaysOnLine) :
    ∃ returns p' rest', Reads a b c (withReturns cs) p' rest' ∧
      p.IsReturned rest returns p' rest' := by
  have hline := h.not_mem_feed hc hp
  have hplain : p.tokenKind? ≠ some .error → p.isComment = false → p.kind.spansLines = false →
      ∃ returns p' rest', Reads a b c (Text.withReturns cs) p' rest' ∧
        p.IsReturned rest returns p' rest' := fun herror hcomment hlines =>
    ⟨[], p, _, h.returned_of_line herror hcomment (hline hlines), isReturned_self (hline hlines) _⟩
  cases h with
  | blank | string | number | regex | name | punct => exact hplain (by simp [tokenKind?]) rfl rfl
  | invalid hname hinvalid =>
    exact ⟨[], _, _, .invalid hname hinvalid, isReturned_self (hline rfl) _⟩
  | lineComment ds =>
    obtain ⟨returns, htake, hleaves⟩ := takeWhile_withReturns ds
    refine ⟨returns, _, _, .lineComment (Text.withReturns ds), rfl, ?_, hleaves, fun _ => Or.inl rfl⟩
    rw [withReturns_eq_self (hline rfl), htake]
    rfl
  | openString hquote opened =>
    obtain ⟨returns, rest', hagain, hleaves⟩ := Reading.string_withReturns_stopped
      (by rcases hquote with rfl | rfl <;> decide) opened (List.not_mem_of_not_mem_cons (hline rfl))
    have hreads := @Reads.openString a b c (Text.withReturns cs) hquote (by rw [hagain])
    rw [hagain] at hreads
    refine ⟨returns, _, _, hreads, rfl, ?_, hleaves, fun _ => Or.inr rfl⟩
    rw [withReturns_eq_self (hline rfl)]
    rfl
  | openRegex hslash hmark hblock opened =>
    obtain ⟨returns, rest', hagain, hleaves⟩ := Reading.regex_withReturns_stopped opened
      (List.not_mem_of_not_mem_cons (hline rfl))
    rw [Ne, ← head?_withReturns_iff (by decide) (by decide)] at hmark hblock
    have hreads := @Reads.openRegex a b (Text.withReturns cs) hslash hmark hblock (by rw [hagain])
    rw [hagain] at hreads
    refine ⟨returns, _, _, hreads, rfl, ?_, hleaves, fun _ => Or.inr rfl⟩
    rw [withReturns_eq_self (hline rfl)]
    rfl
  | @blockComment ds closed =>
    have hreads := @Reads.blockComment a b (Text.withReturns ds)
      (by rwa [Reading.blockComment_withReturns])
    rw [Reading.blockComment_withReturns] at hreads
    exact ⟨[], _, _, hreads, isReturned_withReturns _ _⟩
  | @openComment ds opened =>
    have hreads := @Reads.openComment a b (Text.withReturns ds)
      (by rwa [Reading.blockComment_withReturns])
    rw [Reading.blockComment_withReturns] at hreads
    exact ⟨[], _, _, hreads, isReturned_withReturns _ _⟩
  | template hquote closed =>
    have hreads := @Reads.template a b c (Text.withReturns cs) hquote
      (by rwa [Reading.template_withReturns])
    rw [Reading.template_withReturns] at hreads
    refine ⟨[], _, _, ?_, isReturned_withReturns _ _⟩
    rw [withReturns_cons hc]
    exact hreads
  | openTemplate hquote opened =>
    have hreads := @Reads.openTemplate a b c (Text.withReturns cs) hquote
      (by rwa [Reading.template_withReturns])
    rw [Reading.template_withReturns] at hreads
    refine ⟨[], _, _, ?_, isReturned_withReturns _ _⟩
    rw [withReturns_cons hc]
    exact hreads

end Piece

/-- The place where the span begins. -/
def Span.beginning (s : Span) : Span := ⟨s.start, s.start⟩

/-- The place where a span of this text begins in the text with a carriage return in front of each line
feed: it has moved by the number of its line. -/
def Span.returned (text : String) (s : Span) : Span :=
  let start := s.start + (LineTable.ofText text).lineOf s.start
  ⟨start, start⟩

/-- The token with nothing but its beginning for its place. -/
def Token.beginning (t : Token) : Token := { t with span := t.span.beginning }

/-- The token of this text as it begins in the text with a carriage return in front of each line feed. If
it is a template, its text has changed too. -/
def Token.returned (text : String) (t : Token) : Token :=
  { t with
    span := t.span.returned text
    text := if t.kind = .template then crlf t.text else t.text }

namespace Piece

variable {p p' : Piece} {rest returns rest' : List Char}

theorem IsReturned.text_eq (h : p.IsReturned rest returns p' rest')
    (hline : p.kind.spansLines = false → '\n' ∉ p.text) (hlines : p.kind.spansLines = false)
    (htakes : ¬(p.kind = .lineComment ∨ p.tokenKind? = some .error)) : p'.text = p.text := by
  have hnone : returns = [] := by_contra fun hne => htakes (h.takes hne)
  rw [h.text, hnone, List.append_nil, withReturns_eq_self (hline hlines)]

theorem IsReturned.beginning_token? (h : p.IsReturned rest returns p' rest')
    (hline : p.kind.spansLines = false → '\n' ∉ p.text) {text : String} {before after : List Char}
    (htext : text.toList = before ++ after) :
    (p'.token? (Text.byteLength (withReturns before))).map Token.beginning =
      (p.token? (Text.byteLength before)).map (Token.returned text) := by
  have hplace := LineTable.byteLength_withReturns_eq htext
  obtain ⟨kind, chars⟩ := p
  obtain ⟨kind', chars'⟩ := p'
  obtain rfl : kind' = kind := h.kind
  cases kind' with
  | blank | lineComment | blockComment => rfl
  | fault error =>
    simp [token?, tokenKind?, Token.beginning, Token.returned, Span.beginning, Span.returned,
      hplace]
  | template =>
    have hnone : returns = [] := by_contra fun hne => by simpa [tokenKind?] using h.takes hne
    obtain rfl : chars' = withReturns chars := by simpa [hnone] using h.text
    simp [token?, tokenKind?, Token.beginning, Token.returned, Span.beginning, Span.returned,
      hplace, crlf]
  | identifier | number | string | regex | punct =>
    obtain rfl : chars' = chars := h.text_eq hline rfl (by simp [tokenKind?])
    simp [token?, tokenKind?, Token.beginning, Token.returned, Span.beginning, Span.returned,
      hplace]

theorem IsReturned.resumesTemplate_eq (h : p.IsReturned rest returns p' rest') :
    p'.resumesTemplate = p.resumesTemplate := by
  have hhead : p'.text.head? = some '}' ↔ p.text.head? = some '}' := by
    rw [h.text, List.head?_append, ← head?_withReturns_iff (by decide) (by decide)]
    cases (withReturns p.text).head? with
    | none => rcases h.leaves.2 with rfl | rfl <;> simp
    | some c => rfl
  simp only [resumesTemplate, h.kind, hhead]

theorem IsReturned.opensSubstitution_eq (h : p.IsReturned rest returns p' rest') :
    p'.opensSubstitution = p.opensSubstitution := by
  by_cases hkind : p.kind = .template
  · have hnone : returns = [] := by_contra fun hne => by simpa [tokenKind?, hkind] using h.takes hne
    rw [opensSubstitution, opensSubstitution, h.kind, h.text, hnone, List.append_nil,
      isPrefixOf_reverse_withReturns (by decide)]
  · simp [opensSubstitution, h.kind, hkind]

/-- The piece means the same to the text behind it. -/
theorem IsReturned.after_eq (h : p.IsReturned rest returns p' rest')
    (hline : p.kind.spansLines = false → '\n' ∉ p.text) (k : Context) : k.after p' = k.after p := by
  have htext : p.kind = .punct ∨ p.kind = .identifier → p'.text = p.text := by
    rintro (hkind | hkind) <;>
      exact h.text_eq hline (by rw [hkind]; rfl) (by simp [tokenKind?, hkind])
  rw [Context.after, Context.after, h.kind, h.resumesTemplate_eq, h.opensSubstitution_eq]
  cases hkind : p.kind with
  | punct | identifier => simp only [htext (by simp [hkind])]
  | _ => rfl

end Piece

namespace Context

/-! ## The pieces of a text -/

/-- A piece that does not begin with a line feed is read again, unless it is a string or a regular
expression with an escaped line feed. -/
theorem read_withReturns (k : Context) {c : Char} {cs : List Char} (hc : c ≠ '\n')
    (hp : (k.read c cs).1.StaysOnLine) :
    ∃ returns, (k.read c cs).1.IsReturned (k.read c cs).2 returns (k.read c (withReturns cs)).1
      (k.read c (withReturns cs)).2 := by
  have hreads := k.reads_read c cs
  by_cases hinvalid : (k.read c cs).1.kind = .fault .invalidCharacter
  · have hagain := Piece.read_eq_invalid hinvalid k.slashOpensRegex k.braceResumesTemplate
    refine ⟨[], ?_⟩
    rw [Context.read, Context.read, hagain, hagain]
    exact Piece.isReturned_self (by simpa using hc.symm) cs
  · obtain ⟨returns, p', rest', hreads', hreturned⟩ := hreads.exists_returned hc hp
    have hread : k.read c (withReturns cs) = (p', rest') :=
      hreads'.read_eq_of_ne_invalid (by rwa [hreturned.kind])
    exact ⟨returns, by rwa [hread]⟩

theorem tokens_pieces_blank (k : Context) {c : Char} (hc : isBlank c = true) (offset : Nat)
    (cs : List Char) :
    Piece.tokens offset (k.pieces (c :: cs)) = Piece.tokens (offset + c.utf8Size) (k.pieces cs) := by
  rw [pieces_cons, k.read_blank hc, Piece.tokens_cons]
  rfl

/-- A carriage return that has been taken is no token where it has not been taken either. -/
theorem tokens_pieces_leaves (k : Context) {rest returns rest' : List Char}
    (h : LeavesFeed rest returns rest') (offset : Nat) :
    Piece.tokens (offset + byteLength returns) (k.pieces rest') =
      Piece.tokens offset (k.pieces (withReturns rest)) := by
  obtain ⟨hrest, rfl | rfl⟩ := h
  · rw [hrest]
    rfl
  · rw [hrest, List.singleton_append, tokens_pieces_blank k (by decide)]
    rfl

/-- The token that begins a text, if one does, is found again, moved by the number of its line. -/
theorem tokens_pieces_cons_withReturns {text : String} (k : Context) {before cs : List Char} {c : Char}
    (htext : text.toList = before ++ c :: cs) (hp : (k.read c cs).1.StaysOnLine) :
    ∃ ts, Piece.tokens (byteLength (withReturns before)) (k.pieces (withReturns (c :: cs))) =
        ts ++ Piece.tokens (byteLength (withReturns (before ++ (k.read c cs).1.text)))
          ((k.after (k.read c cs).1).pieces (withReturns (k.read c cs).2)) ∧
      ts.map Token.beginning =
        ((k.read c cs).1.token? (byteLength before)).toList.map (Token.returned text) := by
  by_cases hc : c = '\n'
  · -- Where one blank has been there are two.
    subst hc
    have hlength : byteLength (withReturns (before ++ ['\n'])) =
        byteLength (withReturns before) + '\r'.utf8Size + '\n'.utf8Size := by
      rw [withReturns_append, byteLength_append, Nat.add_assoc]
      rfl
    rw [k.read_blank (by decide)]
    refine ⟨[], ?_, rfl⟩
    rw [withReturns_feed, tokens_pieces_blank k (by decide), tokens_pieces_blank k (by decide), hlength]
    rfl
  · obtain ⟨returns, hreturned⟩ := k.read_withReturns hc hp
    have hline := (k.reads_read c cs).not_mem_feed hc hp
    have hlength : byteLength (withReturns (before ++ (k.read c cs).1.text)) =
        byteLength (withReturns before) + byteLength (withReturns (k.read c cs).1.text) := by
      rw [withReturns_append, byteLength_append]
    refine ⟨((k.read c (withReturns cs)).1.token? (byteLength (withReturns before))).toList, ?_, ?_⟩
    · rw [withReturns_cons hc, pieces_cons, Piece.tokens_cons, hreturned.after_eq hline,
        Piece.byteLength, hreturned.text, byteLength_append, ← Nat.add_assoc, ← hlength,
        tokens_pieces_leaves _ hreturned.leaves]
    · rw [← Option.toList_map, ← Option.toList_map, hreturned.beginning_token? hline htext]

/-- The tokens of the first pieces of a text are found again, each moved by the number of its line, up to
the first string or regular expression with an escaped line feed. -/
theorem tokens_pieces_withReturns {text : String} (k : Context) (qs : List Piece)
    {before cs rest : List Char} (htext : text.toList = before ++ cs)
    (hcs : cs = qs.flatMap Piece.text ++ rest)
    (hpieces : k.pieces cs = qs ++ (k.afterAll qs).pieces rest) (hqs : ∀ q ∈ qs, q.StaysOnLine) :
    ∃ ts, Piece.tokens (byteLength (withReturns before)) (k.pieces (withReturns cs)) =
        ts ++ Piece.tokens (byteLength (withReturns (before ++ qs.flatMap Piece.text)))
          ((k.afterAll qs).pieces (withReturns rest)) ∧
      ts.map Token.beginning = (Piece.tokens (byteLength before) qs).map (Token.returned text) := by
  induction qs generalizing k before cs with
  | nil =>
    refine ⟨[], ?_, rfl⟩
    rw [hcs]
    simp
  | cons q qs ih =>
    cases cs with
    | nil => simp at hpieces
    | cons c ds =>
      rw [pieces_cons, List.cons_append, List.cons.injEq] at hpieces
      obtain ⟨rfl, hpieces⟩ := hpieces
      have hds : (k.read c ds).2 = qs.flatMap Piece.text ++ rest := by
        rw [← k.read_append c ds, List.flatMap_cons, List.append_assoc] at hcs
        exact List.append_cancel_left hcs
      have htext' : text.toList = (before ++ (k.read c ds).1.text) ++ (k.read c ds).2 := by
        rw [List.append_assoc, read_append, htext]
      obtain ⟨ts, htokens, hts⟩ := k.tokens_pieces_cons_withReturns htext (hqs _ List.mem_cons_self)
      obtain ⟨us, htokens', hus⟩ := ih (k.after (k.read c ds).1) htext' hds hpieces
        fun q hq => hqs q (List.mem_cons_of_mem _ hq)
      refine ⟨ts ++ us, ?_, ?_⟩
      · rw [htokens, htokens', List.flatMap_cons, List.append_assoc, List.append_assoc]
        rfl
      · rw [List.map_append, hts, hus, Piece.tokens_cons, List.map_append, byteLength_append]
        rfl

end Context

/-! ## Whole texts -/

/-- The line that names an interpreter takes the carriage return at its end. -/
theorem Lexer.program_crlf (text : String) :
    ∃ returns, interpreterLine (crlf text).toList = withReturns (interpreterLine text.toList) ++ returns ∧
      LeavesFeed (program text) returns (program (crlf text)) := by
  have hagain : ['#', '!'].isPrefixOf (crlf text).toList = ['#', '!'].isPrefixOf text.toList := by
    rw [toList_crlf, isPrefixOf_withReturns (by decide) (by decide)]
  by_cases hprefix : ['#', '!'].isPrefixOf text.toList = true
  · have hline : ∀ t : String, ['#', '!'].isPrefixOf t.toList = true →
        interpreterLine t.toList = t.toList.takeWhile (· != '\n') ∧
          program t = t.toList.dropWhile (· != '\n') := by
      intro t ht
      have hline : interpreterLine t.toList = t.toList.takeWhile (· != '\n') := if_pos ht
      exact ⟨hline, (program_eq_iff List.takeWhile_append_dropWhile.symm).mpr hline⟩
    obtain ⟨hfirst, hprogram⟩ := hline text hprefix
    obtain ⟨hfirst', hprogram'⟩ := hline (crlf text) (by rw [hagain, hprefix])
    obtain ⟨returns, htake, hleaves⟩ := takeWhile_withReturns text.toList
    have hfeed : '\n' ∉ text.toList.takeWhile (· != '\n') := fun hmem => by
      simpa using List.mem_takeWhile_imp hmem
    refine ⟨returns, ?_, ?_⟩
    · rw [hfirst', hfirst, withReturns_eq_self hfeed, toList_crlf, htake]
    · rwa [hprogram', hprogram, toList_crlf]
  · have hnone : ∀ t : String, ['#', '!'].isPrefixOf t.toList ≠ true →
        interpreterLine t.toList = [] ∧ program t = t.toList := by
      intro t ht
      have hline : interpreterLine t.toList = [] := if_neg ht
      exact ⟨hline, (program_eq_iff (List.nil_append _).symm).mpr hline⟩
    obtain ⟨hfirst, hprogram⟩ := hnone text hprefix
    obtain ⟨hfirst', hprogram'⟩ := hnone (crlf text) (by rwa [hagain])
    refine ⟨[], ?_, ?_, Or.inl rfl⟩
    · rw [hfirst', hfirst]
      rfl
    · rw [hprogram', hprogram, toList_crlf, List.nil_append]

namespace Lexed

/-- The tokens of a text are found again up to the first string or regular expression with an escaped line
feed. -/
theorem tokens_crlf_append {text : String} {qs rs : List Piece} (hps : Piece.ofText text = qs ++ rs)
    (hqs : ∀ q ∈ qs, q.StaysOnLine) :
    ∃ ts, (ofText (crlf text)).tokens =
        ts ++ Piece.tokens
            (byteLength (withReturns (Lexer.interpreterLine text.toList ++ qs.flatMap Piece.text)))
            ((Context.afterAll {} qs).pieces (withReturns (rs.flatMap Piece.text))) ++
          [Token.atEnd (byteLength (withReturns text.toList))] ∧
      ts.map Token.beginning =
        (Piece.tokens (Lexer.programStart text) qs).map (Token.returned text) := by
  have hprogram := Piece.program_eq_append hps
  have hrs := Context.pieces_flatMap_of_append hps
  obtain ⟨ts, htokens, hts⟩ := Context.tokens_pieces_withReturns {} qs
    (Lexer.interpreterLine_append_program text).symm hprogram (by rw [hrs]; exact hps) hqs
  obtain ⟨returns, hline, hleaves⟩ := Lexer.program_crlf text
  refine ⟨ts, ?_, hts⟩
  rw [tokens_ofText, Lexer.programStart, hline, byteLength_append, Piece.ofText,
    Context.tokens_pieces_leaves _ hleaves, htokens, toList_crlf]

/-- Without escaped line feeds in strings and regular expressions, the tokens are the same ones again. -/
theorem beginning_tokens_crlf {text : String} (h : ∀ p ∈ Piece.ofText text, p.StaysOnLine) :
    (ofText (crlf text)).tokens.map Token.beginning =
      (ofText text).tokens.map (Token.returned text) := by
  obtain ⟨ts, htokens, hts⟩ := tokens_crlf_append (List.append_nil _).symm h
  have hend := LineTable.byteLength_withReturns_eq (List.append_nil text.toList).symm
  rw [htokens, tokens_ofText, List.flatMap_nil, withReturns_nil, Context.pieces_nil,
    Piece.tokens_nil, List.append_nil, List.map_append, List.map_append, hts]
  simp [Token.beginning, Token.returned, Span.beginning, Span.returned, Token.atEnd, hend]

end Lexed

/-! ## Escaped line feeds -/

theorem Text.exists_charAt?_eq_iff {d : Char} (cs rest : List Char) :
    (∃ n, n < byteLength cs ∧ charAt? (cs ++ rest) n = some d) ↔ d ∈ cs := by
  induction cs with
  | nil => simp
  | cons c cs ih =>
    have hpos := c.utf8Size_pos
    rw [List.mem_cons, ← ih, List.cons_append, byteLength_cons]
    constructor
    · rintro ⟨n, hn, hchar⟩
      rw [charAt?] at hchar
      split at hchar
      · exact Or.inl (Option.some.inj hchar).symm
      · exact Or.inr ⟨n - c.utf8Size, by omega, hchar⟩
    · rintro (rfl | ⟨n, hn, hchar⟩)
      · exact ⟨0, by omega, by rw [charAt?, if_pos hpos]⟩
      · refine ⟨c.utf8Size + n, by omega, ?_⟩
        rw [charAt?, if_neg (by omega), Nat.add_sub_cancel_left, hchar]

/-- There is a line feed in the token. -/
def Token.CrossesLine (cs : List Char) (t : Token) : Prop :=
  ∃ n, t.span.Covers n ∧ charAt? cs n = some '\n'

instance (cs : List Char) (t : Token) : Decidable (t.CrossesLine cs) :=
  decidable_of_iff (∃ n ∈ List.range t.span.stop, t.span.start ≤ n ∧ charAt? cs n = some '\n') <| by
    simp only [Token.CrossesLine, Span.Covers, List.mem_range]
    exact exists_congr fun n => by rw [← and_assoc, and_comm (a := n < t.span.stop)]

/-- The token is a string or a regular expression, finished or not. -/
def Token.IsLiteral (t : Token) : Prop :=
  t.kind = .string ∨ t.kind = .regex ∨ t.code = some 1002 ∨ t.code = some 1161

theorem Token.crossesLine_iff {before rest : List Char} {p : Piece} {t : Token}
    (hspan : t.span = p.spanAt (byteLength before)) :
    t.CrossesLine (before ++ (p.text ++ rest)) ↔ '\n' ∈ p.text := by
  rw [CrossesLine, hspan, Piece.spanAt, ← exists_charAt?_eq_iff p.text rest]
  constructor
  · rintro ⟨n, ⟨hlow, hhigh⟩, hchar⟩
    obtain ⟨n, rfl⟩ := Nat.exists_eq_add_of_le hlow
    rw [charAt?_append] at hchar
    exact ⟨n, Nat.lt_of_add_lt_add_left hhigh, hchar⟩
  · rintro ⟨n, hn, hchar⟩
    refine ⟨byteLength before + n, ⟨Nat.le_add_right .., Nat.add_lt_add_left hn _⟩, ?_⟩
    rwa [charAt?_append]

theorem Piece.isLiteral_token?_iff {p : Piece} {offset : Nat} {t : Token}
    (h : p.token? offset = some t) : t.IsLiteral ↔ p.kind = .string ∨ p.kind = .regex ∨
      p.kind = .fault .unterminatedString ∨ p.kind = .fault .unterminatedRegex := by
  obtain ⟨kind, chars⟩ := p
  cases kind with
  | blank | lineComment | blockComment => cases h
  | fault error =>
    obtain rfl := Option.some.inj h
    cases error <;> simp [Token.IsLiteral, LexicalError.code]
  | _ =>
    obtain rfl := Option.some.inj h
    simp [Token.IsLiteral]

/-- The pieces of a text and its tokens say the same about escaped line feeds. -/
theorem Lexed.staysOnLine_iff {text : String} {qs rs : List Piece} {p : Piece} {t : Token}
    (hps : Piece.ofText text = qs ++ p :: rs)
    (ht : p.token? (Lexer.programStart text + Piece.totalLength qs) = some t) :
    p.StaysOnLine ↔ (t.IsLiteral → ¬t.CrossesLine text.toList) := by
  have htext := Lexer.toList_eq_append (Piece.program_eq_append hps)
  have hspan := Piece.span_of_token? ht
  rw [← Lexer.byteLength_before] at hspan
  rw [List.flatMap_cons] at htext
  rw [htext, Token.crossesLine_iff hspan, Piece.isLiteral_token?_iff ht]
  rfl

/-- The token of a piece with an escaped line feed. -/
theorem Piece.exists_token?_of_not_staysOnLine {p : Piece} (hp : ¬p.StaysOnLine) (offset : Nat) :
    ∃ t, p.token? offset = some t := by
  obtain ⟨kind, chars⟩ := p
  cases kind with
  | blank | lineComment | blockComment => exact absurd (by simp [StaysOnLine]) hp
  | _ => exact ⟨_, rfl⟩

theorem Lexed.forall_staysOnLine_iff {text : String} :
    (∀ p ∈ Piece.ofText text, p.StaysOnLine) ↔
      ∀ t ∈ (ofText text).tokens, t.IsLiteral → ¬t.CrossesLine text.toList := by
  constructor
  · intro hstays t ht
    rcases mem_tokens_iff.mp ht with ⟨qs, p, rs, hps, ht⟩ | rfl
    · exact (staysOnLine_iff hps ht).mp (hstays p (by simp [hps]))
    · simp [Token.IsLiteral, Token.atEnd]
  · intro hcross p hp
    by_contra hnot
    obtain ⟨qs, rs, hps⟩ := List.append_of_mem hp
    obtain ⟨t, ht⟩ := Piece.exists_token?_of_not_staysOnLine hnot
      (Lexer.programStart text + Piece.totalLength qs)
    exact hnot ((staysOnLine_iff hps ht).mpr (hcross t (mem_tokens_iff.mpr (Or.inl ⟨qs, p, rs, hps, ht⟩))))

theorem Piece.exists_first_not_staysOnLine {ps : List Piece} (h : ¬∀ p ∈ ps, p.StaysOnLine) :
    ∃ qs p rs, ps = qs ++ p :: rs ∧ (∀ q ∈ qs, q.StaysOnLine) ∧ ¬p.StaysOnLine := by
  induction ps with
  | nil => exact absurd (by simp) h
  | cons p ps ih =>
    by_cases hp : p.StaysOnLine
    · have hps : ¬∀ q ∈ ps, q.StaysOnLine := fun hps => h (List.forall_mem_cons.mpr ⟨hp, hps⟩)
      obtain ⟨qs, q, rs, rfl, hqs, hq⟩ := ih hps
      exact ⟨p :: qs, q, rs, rfl, List.forall_mem_cons.mpr ⟨hp, hqs⟩, hq⟩
    · exact ⟨[], p, ps, rfl, by simp, hp⟩

theorem Piece.code_of_token? {p : Piece} {offset : Nat} {t : Token} {error : LexicalError}
    (h : p.token? offset = some t) (hkind : p.kind = .fault error) : t.code = some error.code := by
  obtain ⟨kind, chars⟩ := p
  obtain rfl : kind = .fault error := hkind
  obtain rfl := Option.some.inj h
  rfl

/-- A string or a regular expression with an escaped line feed is cut where the line feed is, because the
backslash takes the carriage return with it. -/
theorem Piece.Reads.exists_fault_returned {a b : Bool} {c : Char} {cs rest : List Char} {p : Piece}
    (h : Reads a b c cs p rest) (hkind : p.kind = .string ∨ p.kind = .regex) (hfeed : '\n' ∈ p.text) :
    c ≠ '\n' ∧ ∃ error p' rest', Reads a b c (withReturns cs) p' rest' ∧ p'.kind = .fault error ∧
      (error.code = 1002 ∨ error.code = 1161) := by
  cases h with
  | string hquote =>
    have hc : c ≠ '\n' := by rcases hquote with rfl | rfl <;> decide
    have hopen := Reading.string_withReturns_open (List.mem_of_ne_of_mem hc.symm hfeed)
    exact ⟨hc, _, _, _, .openString hquote hopen, rfl, Or.inl rfl⟩
  | @regex cs hslash hline hblock =>
    have hflags : '\n' ∉ (Reading.regex false cs).rest.takeWhile Char.isAlpha := fun hmem =>
      absurd (List.mem_takeWhile_imp hmem) (by decide)
    have htaken : '\n' ∈ (Reading.regex false cs).taken := by simpa [hflags] using hfeed
    rw [Ne, ← head?_withReturns_iff (by decide) (by decide)] at hline hblock
    exact ⟨by decide, _, _, _, .openRegex hslash hline hblock (Reading.regex_withReturns_open htaken),
      rfl, Or.inr rfl⟩
  | _ => simp at hkind

namespace Lexed

/-- The first string or regular expression with an escaped line feed is an error in the text with carriage
returns. -/
theorem exists_error_crlf {text : String} {qs rs : List Piece} {p : Piece}
    (hps : Piece.ofText text = qs ++ p :: rs) (hqs : ∀ q ∈ qs, q.StaysOnLine)
    (hkind : p.kind = .string ∨ p.kind = .regex) (hfeed : '\n' ∈ p.text) :
    ∃ t ∈ (ofText (crlf text)).tokens, t.kind = .error ∧ (t.code = some 1002 ∨ t.code = some 1161) ∧
      t.span.start =
        byteLength (withReturns (Lexer.interpreterLine text.toList ++ qs.flatMap Piece.text)) := by
  obtain ⟨c, cs, hprogram, hp, -⟩ := Context.eq_read_of_pieces_eq hps
  have hreads := (Context.afterAll {} qs).reads_read c cs
  rw [← hp] at hreads
  obtain ⟨hc, error, p', rest', hreads', hkind', hcode⟩ :=
    hreads.exists_fault_returned hkind hfeed
  have hread : (Context.afterAll {} qs).read c (withReturns cs) = (p', rest') := by
    refine hreads'.read_eq_of_ne_invalid ?_
    rw [hkind']
    rintro heq
    cases heq
    simp [LexicalError.code] at hcode
  have hrest : (p :: rs).flatMap Piece.text = c :: cs :=
    List.append_cancel_left ((Piece.program_eq_append hps).symm.trans hprogram)
  obtain ⟨ts, htokens, -⟩ := tokens_crlf_append hps hqs
  generalize hstart :
    byteLength (withReturns (Lexer.interpreterLine text.toList ++ qs.flatMap Piece.text)) = start at *
  have htoken : p'.token? start = some ⟨.error, p'.spanAt start, error.message, some error.code⟩ := by
    obtain ⟨kind, chars⟩ := p'
    obtain rfl : kind = .fault error := hkind'
    rfl
  rw [hrest, withReturns_cons hc, Context.pieces_cons, hread, Piece.tokens_cons, htoken] at htokens
  refine ⟨⟨.error, p'.spanAt start, error.message, some error.code⟩, ?_, rfl,
    hcode.imp (congrArg some) (congrArg some), rfl⟩
  rw [htokens]
  simp

end Lexed

end ModuleBuild
