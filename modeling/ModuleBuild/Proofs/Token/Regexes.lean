import ModuleBuild.Proofs.Token.Slashes
import ModuleBuild.Proofs.Token.Strings

/-!
# Where regular expressions end

A slash closes a regular expression unless it is escaped or stands in a class `[...]`. The grammar also
keeps a regular expression on its line, and the reader looks for the line feed. But it takes a backslash
together with the character behind it whatever that is, so it overlooks a line feed behind a backslash
and goes on to the next line.

What the reader does and what the grammar says are the same relation for two ways to end a line: a line
feed that is not escaped ends it for the reader, and every line feed for the grammar.

Main statements: `Reading.regexEnds_regex`, by which a regular expression ends with a slash, with a line
feed or with the text; `Token.ReadsRegex.on_line_iff`, by which only a line that ends in a backslash makes
a difference; and `regexes_ofText`, about the regular expressions of a text.
-/

namespace ModuleBuild

open Text

namespace Text

/-! ## Slashes, classes and lines -/

/-- The place behind these characters is in a class: a bracket that is not escaped has opened it, and no
such bracket has closed it since. -/
def InClass (cs : List Char) : Prop :=
  ∃ before after, cs = before ++ '[' :: after ∧ ¬Escapes before ∧
    ∀ front behind, after = front ++ ']' :: behind → Escapes (before ++ '[' :: front)

theorem not_inClass_nil : ¬InClass [] := by
  rintro ⟨before, after, h, -⟩
  simp at h

theorem inClass_concat (cs : List Char) (c : Char) :
    InClass (cs ++ [c]) ↔ c = '[' ∧ ¬Escapes cs ∨ InClass cs ∧ (c = ']' → Escapes cs) := by
  constructor
  · rintro ⟨before, after, hsplit, hplain, hopen⟩
    rcases split_concat hsplit with ⟨rfl, rfl, rfl⟩ | ⟨front, rfl, rfl⟩
    · exact Or.inl ⟨rfl, hplain⟩
    · refine Or.inr ⟨⟨before, front, rfl, hplain, ?_⟩, ?_⟩
      · rintro inner behind rfl
        exact hopen inner (behind ++ [c]) (by simp)
      · rintro rfl
        exact hopen front [] rfl
  · rintro (⟨rfl, hplain⟩ | ⟨⟨before, after, rfl, hplain, hopen⟩, hclose⟩)
    · exact ⟨cs, [], rfl, hplain, by simp⟩
    · refine ⟨before, after ++ [c], by simp, hplain, ?_⟩
      intro front behind hsplit
      rcases split_concat hsplit with ⟨rfl, hc, -⟩ | ⟨inner, -, rfl⟩
      · exact hclose hc.symm
      · exact hopen front inner rfl

/-- The characters leave a regular expression open: each slash among them is escaped or in a class, and
no line feed among them ends the line. Whether one does, `ends` says by what stands before it. -/
structure LeavesRegexOpen (ends : List Char → Prop) (cs : List Char) : Prop where
  slash : ∀ before after, cs = before ++ '/' :: after → Escapes before ∨ InClass before
  feed : ∀ before after, cs = before ++ '\n' :: after → ¬ends before

theorem leavesRegexOpen_nil (ends : List Char → Prop) : LeavesRegexOpen ends [] where
  slash before after h := by simp at h
  feed before after h := by simp at h

theorem LeavesRegexOpen.concat {ends : List Char → Prop} {cs : List Char} {c : Char}
    (h : LeavesRegexOpen ends cs) (hslash : c = '/' → Escapes cs ∨ InClass cs)
    (hfeed : c = '\n' → ¬ends cs) : LeavesRegexOpen ends (cs ++ [c]) where
  slash before after hsplit := by
    rcases split_concat hsplit with ⟨rfl, hc, -⟩ | ⟨front, -, rfl⟩
    · exact hslash hc.symm
    · exact h.slash before front rfl
  feed before after hsplit := by
    rcases split_concat hsplit with ⟨rfl, hc, -⟩ | ⟨front, -, rfl⟩
    · exact hfeed hc.symm
    · exact h.feed before front rfl

theorem LeavesRegexOpen.of_append {ends : List Char → Prop} {cs ds : List Char}
    (h : LeavesRegexOpen ends (cs ++ ds)) : LeavesRegexOpen ends cs where
  slash before after hsplit := h.slash before (after ++ ds) (by simp [hsplit])
  feed before after hsplit := h.feed before (after ++ ds) (by simp [hsplit])

/-- The reader of regular expressions stands behind these characters. -/
structure IsRegexPlace (inClass : Bool) (cs : List Char) : Prop where
  leavesOpen : LeavesRegexOpen (¬Escapes ·) cs
  not_escapes : ¬Escapes cs
  inClass_iff : inClass = true ↔ InClass cs

theorem isRegexPlace_nil : IsRegexPlace false [] where
  leavesOpen := leavesRegexOpen_nil _
  not_escapes := by simp [Escapes]
  inClass_iff := iff_of_false Bool.false_ne_true not_inClass_nil

/-- A backslash and the character behind it lead from one such place to the next. -/
theorem IsRegexPlace.escape {inClass : Bool} {cs : List Char} (h : IsRegexPlace inClass cs)
    (c : Char) : IsRegexPlace inClass (cs ++ ['\\'] ++ [c]) := by
  have hescapes : Escapes (cs ++ ['\\']) := (escapes_concat _ _).mpr ⟨rfl, h.not_escapes⟩
  refine ⟨?_, ?_, ?_⟩
  · have hbackslash : LeavesRegexOpen (¬Escapes ·) (cs ++ ['\\']) :=
      h.leavesOpen.concat (by simp) (by simp)
    exact hbackslash.concat (fun _ => Or.inl hescapes) fun _ hplain => hplain hescapes
  · rw [escapes_concat]
    exact fun ⟨_, hplain⟩ => hplain hescapes
  · rw [h.inClass_iff, inClass_concat, inClass_concat]
    simp [hescapes]

/-- A character that is not escaped leads to the next place unless it closes the regular expression or
ends the line. A bracket opens or closes a class. -/
theorem IsRegexPlace.plain {inClass inClass' : Bool} {c : Char} {cs : List Char}
    (h : IsRegexPlace inClass cs) (hescape : c ≠ '\\') (hline : c ≠ '\n')
    (hslash : c = '/' → inClass = true)
    (hclass : inClass' = true ↔ c = '[' ∨ inClass = true ∧ c ≠ ']') :
    IsRegexPlace inClass' (cs ++ [c]) := by
  refine ⟨h.leavesOpen.concat ?_ ?_, ?_, ?_⟩
  · exact fun hc => Or.inr (h.inClass_iff.mp (hslash hc))
  · exact fun hc => absurd hc hline
  · rw [escapes_concat]
    exact fun ⟨hc, _⟩ => hescape hc
  · rw [hclass, inClass_concat, h.inClass_iff]
    simp [h.not_escapes]

/-! ## Lines that end in a backslash -/

/-- The first line leaves the regular expression open and ends in a backslash that takes the line feed
with it. -/
def RunsOverLine (cs : List Char) : Prop :=
  ∃ line rest, cs = line ++ '\n' :: rest ∧ LeavesRegexOpen (fun _ => True) line ∧ Escapes line

/-- What the reader takes for the rest of a line stays on the line, or else its first line ends in a
backslash that takes the line feed with it. -/
theorem LeavesRegexOpen.on_line_or {body : List Char} (h : LeavesRegexOpen (¬Escapes ·) body) :
    '\n' ∉ body ∧ LeavesRegexOpen (fun _ => True) body ∨ ∀ rest, RunsOverLine (body ++ rest) := by
  by_cases hfeed : '\n' ∈ body
  · obtain ⟨line, behind, rfl, hline⟩ := List.eq_append_cons_of_mem hfeed
    refine Or.inr fun rest => ⟨line, behind ++ rest, by simp, ⟨h.of_append.slash, ?_⟩, ?_⟩
    · rintro before after rfl
      simp at hline
    · exact not_not.mp (h.feed line behind rfl)
  · refine Or.inl ⟨hfeed, h.slash, ?_⟩
    rintro before after rfl
    simp at hfeed

/-- A mark that does not stand on a line, nor at its end, stands behind its line feed. -/
theorem exists_eq_line_append {body line rest tail : List Char} {mark : Char}
    (h : body ++ mark :: tail = line ++ '\n' :: rest) (hline : ∀ after, line ≠ body ++ mark :: after)
    (hend : mark = '\n' → line ≠ body) : ∃ after, body = line ++ '\n' :: after := by
  rcases List.append_eq_append_iff.mp h with ⟨x, rfl, hx⟩ | ⟨x, rfl, hx⟩
  · cases x with
    | nil =>
      obtain ⟨hmark, -⟩ := List.cons.inj hx
      exact absurd (List.append_nil _) (hend hmark)
    | cons d x =>
      obtain ⟨rfl, -⟩ := List.cons.inj hx
      exact absurd rfl (hline x)
  · cases x with
    | nil =>
      obtain ⟨hmark, -⟩ := List.cons.inj hx
      exact absurd (List.append_nil _).symm (hend hmark.symm)
    | cons d x =>
      obtain ⟨rfl, -⟩ := List.cons.inj hx
      exact ⟨x, rfl⟩

/-- A slash that closes the regular expression stands behind a line that leaves it open. -/
theorem LeavesRegexOpen.exists_feed_of_slash {line body rest tail : List Char}
    (hline : LeavesRegexOpen (fun _ => True) line) (h : body ++ '/' :: tail = line ++ '\n' :: rest)
    (hplain : ¬Escapes body) (hclass : ¬InClass body) : ∃ after, body = line ++ '\n' :: after := by
  refine exists_eq_line_append h (fun after hsplit => ?_) (by simp)
  exact (hline.slash body after hsplit).elim hplain hclass

/-- A line feed that is not escaped stands behind a line that ends in a backslash. -/
theorem LeavesRegexOpen.exists_feed_of_feed {line body rest tail : List Char}
    (hline : LeavesRegexOpen (fun _ => True) line) (hescapes : Escapes line)
    (h : body ++ '\n' :: tail = line ++ '\n' :: rest) (hplain : ¬Escapes body) :
    ∃ after, body = line ++ '\n' :: after := by
  refine exists_eq_line_append h (fun after hsplit => ?_) fun _ hsplit => ?_
  · exact hline.feed body after hsplit trivial
  · exact hplain (hsplit ▸ hescapes)

end Text

/-! ## Reading a regular expression -/

namespace Reading

/-- How reading a regular expression ends that goes on from behind `before`: with a slash, with a line
feed or with the text. -/
inductive RegexEnds (before : List Char) : List Char → Reading → Prop where
  | closed {body : List Char} (rest : List Char) (h : IsRegexPlace false (before ++ body)) :
    RegexEnds before (body ++ '/' :: rest) ⟨body ++ ['/'], rest, true⟩
  | cut {body : List Char} {inClass : Bool} (rest : List Char)
    (h : IsRegexPlace inClass (before ++ body)) :
    RegexEnds before (body ++ '\n' :: rest) ⟨body, '\n' :: rest, false⟩
  | ended {body : List Char} (h : LeavesRegexOpen (¬Escapes ·) (before ++ body)) :
    RegexEnds before body ⟨body, [], false⟩

theorem RegexEnds.cons {before cs : List Char} {c : Char} {r : Reading}
    (h : RegexEnds (before ++ [c]) cs r) : RegexEnds before (c :: cs) (Reading.cons c r) := by
  cases h with
  | @closed body rest h => exact @closed before (c :: body) rest (by simpa using h)
  | @cut body inClass rest h => exact @cut before (c :: body) inClass rest (by simpa using h)
  | ended h => exact ended (by simpa using h)

/-- A slash that is not escaped and in no class closes the regular expression at once. -/
theorem RegexEnds.here {before : List Char} (h : IsRegexPlace false before) (rest : List Char) :
    RegexEnds before ('/' :: rest) (complete ['/'] rest) :=
  @closed before [] rest (by simpa using h)

/-- A line feed that is not escaped ends it at once. -/
theorem RegexEnds.feed {before : List Char} {inClass : Bool} (h : IsRegexPlace inClass before)
    (rest : List Char) : RegexEnds before ('\n' :: rest) (stopped ('\n' :: rest)) :=
  @cut before [] inClass rest (by simpa using h)

theorem regexEnds_regex {inClass : Bool} {before cs : List Char} (h : IsRegexPlace inClass before) :
    RegexEnds before cs (regex inClass cs) := by
  fun_induction regex inClass cs generalizing before with
  | case1 => exact .ended (by simpa using h.leavesOpen)
  | case2 => exact .feed h []
  | case3 inClass c hline hmark =>
    obtain ⟨rfl, rfl⟩ := hmark
    exact .here h []
  | case4 inClass c hline hmark =>
    -- The text ends behind this character, a backslash perhaps.
    refine .ended (h.leavesOpen.concat (fun hc => Or.inr ?_) fun hc => absurd hc hline)
    exact h.inClass_iff.mp ((Bool.not_eq_false _).mp fun hclass => hmark ⟨hc, hclass⟩)
  | case5 inClass d cs => exact .feed h (d :: cs)
  | case6 inClass d cs hline ih => exact .cons (.cons (ih (h.escape d)))
  | case7 inClass d cs hline hescape ih =>
    exact .cons (ih (h.plain hescape hline (by simp) (by simp)))
  | case8 inClass d cs hline hescape hbegin ih =>
    exact .cons (ih (h.plain hescape hline (by simp) (by simp)))
  | case9 inClass c d cs hline hescape hbegin hend hmark =>
    obtain ⟨rfl, rfl⟩ := hmark
    exact .here h (d :: cs)
  | case10 inClass c d cs hline hescape hbegin hend hmark ih =>
    have hslash : c = '/' → inClass = true := fun hc =>
      (Bool.not_eq_false _).mp fun hclass => hmark ⟨hc, hclass⟩
    exact .cons (ih (h.plain hescape hline hslash (by simp [hbegin, hend])))

end Reading

/-- Where an operand comes, a slash that begins no comment begins a regular expression. -/
theorem Context.read_slash {k : Context} (hk : k.slashOpensRegex = true) {cs : List Char}
    (hline : cs.head? ≠ some '/') (hblock : cs.head? ≠ some '*') :
    k.read '/' cs = Piece.regex '/' cs := by
  have hblank : isBlank '/' = false := by decide
  simp [read, Piece.read, hk, hline, hblock, hblank]

/-! ## The tokens of a text -/

/-- The token that a regular expression is whose opening slash stands behind `before` and in front of the
given characters. What ends the line, `ends` says: for the grammar every line feed does. -/
inductive Token.ReadsRegex (ends : List Char → Prop) (before : List Char) :
    List Char → Token → Prop where
  /-- The first slash that is neither escaped nor in a class closes the regular expression, if the line
  does not end before it. The flags behind it belong to the token. -/
  | closed {body flags : List Char} (rest : List Char) (hopen : LeavesRegexOpen ends body)
    (hplain : ¬Escapes body) (hclass : ¬InClass body) (hflags : ∀ c ∈ flags, c.isAlpha = true)
    (hrest : ∀ c, rest.head? = some c → c.isAlpha = false) :
    ReadsRegex ends before (body ++ '/' :: (flags ++ rest))
      { kind := .regex
        span := ⟨byteLength before, byteLength (before ++ '/' :: (body ++ '/' :: flags))⟩
        text := String.ofList ('/' :: (body ++ '/' :: flags)) }
  /-- The end of the line cuts the regular expression in front of that slash. -/
  | cut {body : List Char} (rest : List Char) (hopen : LeavesRegexOpen ends body) (hend : ends body) :
    ReadsRegex ends before (body ++ '\n' :: rest)
      { kind := .error
        span := ⟨byteLength before, byteLength (before ++ '/' :: body)⟩
        text := "Unterminated regular expression literal."
        code := some 1161 }
  /-- Otherwise the regular expression goes on to the end of the text. -/
  | ended {body : List Char} (hopen : LeavesRegexOpen ends body) :
    ReadsRegex ends before body
      { kind := .error
        span := ⟨byteLength before, byteLength (before ++ '/' :: body)⟩
        text := "Unterminated regular expression literal."
        code := some 1161 }

namespace Token

/-- The reader takes every line feed that is not escaped for the end of the line. -/
theorem readsRegex_of_token? {k : Context} (hk : k.slashOpensRegex = true) {before cs : List Char}
    {t : Token} (hline : cs.head? ≠ some '/') (hblock : cs.head? ≠ some '*')
    (h : (k.read '/' cs).1.token? (byteLength before) = some t) :
    ReadsRegex (¬Escapes ·) before cs t := by
  rw [Context.read_slash hk hline hblock, Piece.regex] at h
  have hends : Reading.RegexEnds [] cs (Reading.regex false cs) :=
    Reading.regexEnds_regex isRegexPlace_nil
  generalize Reading.regex false cs = r at h hends
  cases hends with
  | @closed body rest hplace =>
    rw [if_pos rfl] at h
    obtain rfl := Option.some.inj h
    have hclass : ¬InClass body := fun hclass => by simpa using hplace.inClass_iff.mpr hclass
    have hflags : ∀ c ∈ rest.takeWhile Char.isAlpha, c.isAlpha = true :=
      fun c hc => List.mem_takeWhile_imp hc
    have hrest : ∀ c, (rest.dropWhile Char.isAlpha).head? = some c → c.isAlpha = false :=
      fun c hc => by simpa [hc] using List.head?_dropWhile_not Char.isAlpha rest
    have htoken := @ReadsRegex.closed _ before _ _ _ hplace.leavesOpen hplace.not_escapes hclass
      hflags hrest
    rw [List.takeWhile_append_dropWhile, byteLength_append] at htoken
    simpa [Piece.spanAt, Piece.byteLength] using htoken
  | @cut body inClass rest hplace =>
    rw [if_neg Bool.false_ne_true] at h
    obtain rfl := Option.some.inj h
    have htoken := @ReadsRegex.cut _ before _ rest hplace.leavesOpen hplace.not_escapes
    rwa [byteLength_append] at htoken
  | ended hopen =>
    rw [if_neg Bool.false_ne_true] at h
    obtain rfl := Option.some.inj h
    have htoken := @ReadsRegex.ended _ before _ hopen
    rwa [byteLength_append] at htoken

variable {before cs : List Char} {t : Token}

/-- Where a line that leaves the regular expression open ends in a backslash that takes the line feed with
it, the reader goes on behind the line. -/
theorem ReadsRegex.line_lt_stop {line rest : List Char}
    (h : ReadsRegex (¬Escapes ·) before (line ++ '\n' :: rest) t)
    (hline : LeavesRegexOpen (fun _ => True) line) (hescapes : Escapes line) :
    byteLength (before ++ '/' :: line) < t.span.stop := by
  have hfeed : 0 < ('\n' : Char).utf8Size := Char.utf8Size_pos _
  generalize hcs : line ++ '\n' :: rest = cs at h
  cases h with
  | closed _ _ hplain hclass =>
    obtain ⟨after, rfl⟩ := hline.exists_feed_of_slash hcs.symm hplain hclass
    simp only [byteLength_append, byteLength_cons]
    omega
  | cut _ _ hplain =>
    obtain ⟨after, rfl⟩ := hline.exists_feed_of_feed hescapes hcs.symm hplain
    simp only [byteLength_append, byteLength_cons]
    omega
  | ended =>
    subst hcs
    simp only [byteLength_append, byteLength_cons]
    omega

/-- For the grammar, a line that leaves the regular expression open cuts it at its end. -/
theorem ReadsRegex.stop_eq {line rest : List Char}
    (h : ReadsRegex (fun _ => True) before (line ++ '\n' :: rest) t)
    (hline : LeavesRegexOpen (fun _ => True) line) :
    t.span.stop = byteLength (before ++ '/' :: line) := by
  generalize hcs : line ++ '\n' :: rest = cs at h
  cases h with
  | closed _ hopen hplain hclass =>
    obtain ⟨after, rfl⟩ := hline.exists_feed_of_slash hcs.symm hplain hclass
    exact absurd trivial (hopen.feed line after rfl)
  | @cut body rest hopen =>
    by_contra hstop
    have hne : line ≠ body := fun hsplit => hstop (by rw [hsplit])
    have hnot : ∀ after, line ≠ body ++ '\n' :: after := fun after hsplit =>
      hline.feed body after hsplit trivial
    obtain ⟨after, rfl⟩ := exists_eq_line_append hcs.symm hnot fun _ => hne
    exact hopen.feed line after rfl trivial
  | ended hopen => exact absurd trivial (hopen.feed line rest hcs.symm)

/-- The reader keeps a regular expression on its line, as the grammar does, unless that line ends in a
backslash. -/
theorem ReadsRegex.on_line_iff (h : ReadsRegex (¬Escapes ·) before cs t) :
    ReadsRegex (fun _ => True) before cs t ↔ ¬RunsOverLine cs := by
  constructor
  · rintro hgrammar ⟨line, rest, rfl, hline, hescapes⟩
    have hstop := hgrammar.stop_eq hline
    have hbehind := h.line_lt_stop hline hescapes
    omega
  · intro hover
    cases h with
    | closed rest hopen hplain hclass hflags hrest =>
      rcases hopen.on_line_or with ⟨-, hline⟩ | hbackslash
      · exact .closed rest hline hplain hclass hflags hrest
      · exact absurd (hbackslash _) hover
    | cut rest hopen hend =>
      rcases hopen.on_line_or with ⟨-, hline⟩ | hbackslash
      · exact .cut rest hline trivial
      · exact absurd (hbackslash _) hover
    | ended hopen =>
      rcases hopen.on_line_or with ⟨-, hline⟩ | hbackslash
      · exact .ended hline
      · exact absurd (by simpa using hbackslash []) hover

/-- A regular expression contains a line feed exactly if its first line ends in a backslash. -/
theorem ReadsRegex.feed_mem_iff (h : ReadsRegex (¬Escapes ·) before cs t) (hkind : t.kind = .regex) :
    '\n' ∈ t.text.toList ↔ RunsOverLine cs := by
  cases h with
  | @closed body flags rest hopen hplain hclass hflags hrest =>
    have htext : '\n' ∈ (String.ofList ('/' :: (body ++ '/' :: flags))).toList ↔ '\n' ∈ body := by
      have hflag : '\n' ∉ flags := fun hmem => absurd (hflags _ hmem) (by decide)
      simp [hflag]
    rw [htext]
    constructor
    · intro hmem
      rcases hopen.on_line_or with ⟨hfeed, -⟩ | hbackslash
      · exact absurd hmem hfeed
      · exact hbackslash _
    · rintro ⟨line, tail, hcs, hline, -⟩
      obtain ⟨after, rfl⟩ := hline.exists_feed_of_slash hcs hplain hclass
      simp
  | cut | ended => cases hkind

end Token

/-- A regular expression begins with a slash that begins no comment, where an operand comes. -/
theorem Piece.Reads.isSlash {a b : Bool} {c : Char} {cs rest : List Char} {p : Piece}
    (h : Reads a b c cs p rest) (hkind : p.tokenKind? = some .regex) :
    c = '/' ∧ a = true ∧ cs.head? ≠ some '/' ∧ cs.head? ≠ some '*' := by
  cases h with
  | regex hslash hline hblock => exact ⟨rfl, hslash, hline, hblock⟩
  | _ => simp [tokenKind?] at hkind

theorem Lexed.exists_slash_of_mem_tokens {text : String} {t : Token} (ht : t ∈ (ofText text).tokens)
    (hkind : t.kind = .regex) :
    ∃ before cs, text.toList = before ++ '/' :: cs ∧ t.span.start = byteLength before ∧
      Token.ReadsRegex (¬Escapes ·) before cs t := by
  rcases cases_of_mem_tokens ht with ⟨k, before, c, cs, htext, hstart, hread⟩ | rfl
  · have hpiece := Piece.kind_of_token? hread
    rw [hkind] at hpiece
    obtain ⟨rfl, hk, hline, hblock⟩ := Piece.Reads.isSlash (Piece.reads_read ..) hpiece
    exact ⟨before, cs, htext, hstart, Token.readsRegex_of_token? hk hline hblock hread⟩
  · cases hkind

/-- Among the tokens of a text, one that begins in front of a character is what is read there in a context
that stands for the tokens before it. -/
theorem Lexed.exists_read_of_tokens_eq {text : String} {us vs : List Token} {t : Token}
    (htokens : (ofText text).tokens = us ++ t :: vs) {before cs : List Char} {c : Char}
    (htext : text.toList = before ++ c :: cs) (hstart : t.span.start = byteLength before) :
    ∃ k : Context, k.Recalls (us.filter (·.kind ≠ .error)) ∧
      (k.read c cs).1.token? (byteLength before) = some t := by
  rw [tokens_ofText] at htokens
  rcases List.eq_nil_or_concat vs with rfl | ⟨vs, last, rfl⟩
  · -- No character stands behind the end token.
    obtain ⟨-, hlast⟩ := List.append_inj' htokens rfl
    rw [← List.singleton_inj.mp hlast, htext] at hstart
    have hpos := c.utf8Size_pos
    simp only [Token.atEnd, byteLength_append, byteLength_cons] at hstart
    omega
  · have hsplit : Piece.tokens (Lexer.programStart text) (Piece.ofText text) ++
        [Token.atEnd (byteLength text.toList)] = (us ++ t :: vs) ++ [last] := by
      simpa using htokens
    obtain ⟨htokens, -⟩ := List.append_inj' hsplit rfl
    obtain ⟨qs, p, rs, hps, rfl, ht⟩ := Piece.tokens_eq_append_cons htokens
    obtain ⟨d, ds, hprogram, rfl, -⟩ := Context.eq_read_of_pieces_eq hps
    have hplace :
        t.span.start = byteLength (Lexer.interpreterLine text.toList ++ qs.flatMap Piece.text) := by
      rw [Lexer.byteLength_before, Piece.span_of_token? ht, Piece.spanAt_start]
    obtain ⟨rfl, rfl, rfl⟩ := split_unique ((Lexer.toList_eq_append hprogram).symm.trans htext)
      (hplace.symm.trans hstart)
    have hrecalls := Context.recalls_nil.afterAll (Lexer.programStart text) qs
    rw [List.nil_append] at hrecalls
    rw [Lexer.byteLength_before]
    exact ⟨_, hrecalls, ht⟩

/-- A slash that begins no comment, where an operand comes, begins a regular expression. -/
theorem Lexed.readsRegex_of_tokens_eq {text : String} {us vs : List Token} {t : Token}
    (htokens : (ofText text).tokens = us ++ t :: vs) {before cs : List Char}
    (htext : text.toList = before ++ '/' :: cs) (hstart : t.span.start = byteLength before)
    (hoperand : Token.ExpectOperand (us.filter (·.kind ≠ .error))) (hblock : cs.head? ≠ some '*') :
    Token.ReadsRegex (¬Escapes ·) before cs t := by
  obtain ⟨k, hrecalls, hread⟩ := exists_read_of_tokens_eq htokens htext hstart
  have hline : cs.head? ≠ some '/' := by
    intro hline
    obtain ⟨ds, rfl⟩ := List.head?_eq_some_iff.mp hline
    have hcomment : (k.read '/' ('/' :: ds)).1.isComment = true := rfl
    rw [Piece.token?_eq_none_of_isComment hcomment] at hread
    cases hread
  exact Token.readsRegex_of_token? (hrecalls.slash.mpr hoperand) hline hblock hread

/-- Where an operand comes, a slash that begins no comment begins a regular expression: it ends behind the
first slash that is neither escaped nor in a class, unless a line feed that is not escaped or the end of the
text comes first, and then it is the error that says so. That is what the grammar says, and the regular
expression stays on its line, exactly if the line does not end in a backslash inside it. -/
theorem regexes_ofText (text : String) :
    (∀ t ∈ (Lexed.ofText text).tokens, t.kind = .regex →
      ∃ before cs, text.toList = before ++ '/' :: cs ∧ t.span.start = byteLength before ∧
        ('\n' ∈ t.text.toList ↔ RunsOverLine cs)) ∧
    ∀ us t vs, (Lexed.ofText text).tokens = us ++ t :: vs → ∀ before cs,
      text.toList = before ++ '/' :: cs → t.span.start = byteLength before →
        Token.ExpectOperand (us.filter (·.kind ≠ .error)) → cs.head? ≠ some '*' →
          Token.ReadsRegex (¬Escapes ·) before cs t ∧
            (Token.ReadsRegex (fun _ => True) before cs t ↔ ¬RunsOverLine cs) := by
  constructor
  · intro t ht hkind
    obtain ⟨before, cs, htext, hstart, hreads⟩ := Lexed.exists_slash_of_mem_tokens ht hkind
    exact ⟨before, cs, htext, hstart, hreads.feed_mem_iff hkind⟩
  · intro us t vs htokens before cs htext hstart hoperand hblock
    have hreads := Lexed.readsRegex_of_tokens_eq htokens htext hstart hoperand hblock
    exact ⟨hreads, hreads.on_line_iff⟩

/-- In `x=/[/]\//g;` the first slash behind the opening one is in a class, and the second is escaped. -/
theorem regexes_of_class_and_escape :
    ∃ us t vs, (Lexed.ofText "x=/[/]\\//g;").tokens = us ++ t :: vs ∧ t.kind = .regex ∧
      (∃ before cs, "x=/[/]\\//g;".toList = before ++ '/' :: cs ∧ t.span.start = byteLength before ∧
        ('\n' ∈ t.text.toList ↔ RunsOverLine cs)) ∧
      Token.ReadsRegex (fun _ => True) "x=".toList "[/]\\//g;".toList t := by
  let us : List Token := [⟨.identifier, ⟨0, 1⟩, "x", none⟩, ⟨.punct, ⟨1, 2⟩, "=", none⟩]
  let t : Token := ⟨.regex, ⟨2, 10⟩, "/[/]\\//g", none⟩
  let vs : List Token := [⟨.punct, ⟨10, 11⟩, ";", none⟩, Token.atEnd 11]
  have htokens : (Lexed.ofText "x=/[/]\\//g;").tokens = us ++ t :: vs := by decide +kernel
  have ht : t ∈ (Lexed.ofText "x=/[/]\\//g;").tokens := by rw [htokens]; simp
  have hoperand : Token.ExpectOperand (us.filter (·.kind ≠ .error)) :=
    Or.inr ⟨[us[0]], us[1], rfl, Or.inl (by decide)⟩
  have hline : ¬RunsOverLine "[/]\\//g;".toList := by
    rintro ⟨line, rest, hsplit, -⟩
    have hfeed : '\n' ∈ "[/]\\//g;".toList := by simp [hsplit]
    exact absurd hfeed (by decide)
  obtain ⟨hfeeds, hslashes⟩ := regexes_ofText "x=/[/]\\//g;"
  refine ⟨us, t, vs, htokens, rfl, hfeeds t ht rfl, ?_⟩
  exact (hslashes us t vs htokens "x=".toList _ rfl rfl hoperand (by decide)).2.mpr hline

/-- A line feed behind a backslash does not end a regular expression: the one in the first text goes on to
the slash on the next line, and the one in the second text is cut by the end of the text only. -/
theorem escaped_feed_in_regex :
    (∃ t ∈ (Lexed.ofText "/a\\\nb/;").tokens, t.kind = .regex ∧ '\n' ∈ t.text.toList) ∧
      ∃ t ∈ (Lexed.ofText "/a\\\nb").tokens, t.code = some 1161 ∧ t.span = ⟨0, 5⟩ := by
  decide +kernel

end ModuleBuild
