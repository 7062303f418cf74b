import ModuleBuild.Token.Context
import Mathlib.Data.List.Basic

/-!
# What pieces look like

`Piece.Reads` lists the ways in which a piece can be read at a place: one constructor for each, with
what must hold there, the text that is taken and the text that is left. `reads_read` says that reading
does nothing else, so a proof about pieces is a case split over the constructors and need not look
into `Piece.read`.

Main statements: `reads_read`; and `blockComment_first_mark`, by which a block comment ends at its
first closing mark.
-/

namespace ModuleBuild

namespace Piece

/-- The piece `p` can be read at the front of `c :: cs` and leaves `rest`. The two truth values are what
a slash and a closing brace mean there. -/
inductive Reads (slashOpensRegex braceResumesTemplate : Bool) :
    Char → List Char → Piece → List Char → Prop where
  /-- A blank. -/
  | blank {c : Char} {cs : List Char} (hc : Text.isBlank c = true) :
    Reads slashOpensRegex braceResumesTemplate c cs ⟨.blank, [c]⟩ cs
  /-- A comment up to the end of the line. -/
  | lineComment (ds : List Char) :
    Reads slashOpensRegex braceResumesTemplate '/' ('/' :: ds)
      ⟨.lineComment, '/' :: '/' :: ds.takeWhile (· != '\n')⟩ (ds.dropWhile (· != '\n'))
  /-- A comment up to its closing mark. -/
  | blockComment {ds : List Char} (closed : (Reading.blockComment ds).closed = true) :
    Reads slashOpensRegex braceResumesTemplate '/' ('*' :: ds)
      ⟨.blockComment, '/' :: '*' :: (Reading.blockComment ds).taken⟩ (Reading.blockComment ds).rest
  /-- A comment without its closing mark. -/
  | openComment {ds : List Char} (opened : (Reading.blockComment ds).closed = false) :
    Reads slashOpensRegex braceResumesTemplate '/' ('*' :: ds)
      ⟨.fault .unterminatedComment, '/' :: '*' :: (Reading.blockComment ds).taken⟩
      (Reading.blockComment ds).rest
  /-- A string up to its closing quote. -/
  | string {c : Char} {cs : List Char} (hc : c = '"' ∨ c = '\'')
    (closed : (Reading.string c cs).closed = true) :
    Reads slashOpensRegex braceResumesTemplate c cs
      ⟨.string, c :: (Reading.string c cs).taken⟩ (Reading.string c cs).rest
  /-- A string without its closing quote. -/
  | openString {c : Char} {cs : List Char} (hc : c = '"' ∨ c = '\'')
    (opened : (Reading.string c cs).closed = false) :
    Reads slashOpensRegex braceResumesTemplate c cs
      ⟨.fault .unterminatedString, c :: (Reading.string c cs).taken⟩ (Reading.string c cs).rest
  /-- A stretch of a template. -/
  | template {c : Char} {cs : List Char} (hc : c = '\x60' ∨ c = '}' ∧ braceResumesTemplate = true)
    (closed : (Reading.template cs).closed = true) :
    Reads slashOpensRegex braceResumesTemplate c cs
      ⟨.template, c :: (Reading.template cs).taken⟩ (Reading.template cs).rest
  /-- A stretch of a template that the text ends. -/
  | openTemplate {c : Char} {cs : List Char}
    (hc : c = '\x60' ∨ c = '}' ∧ braceResumesTemplate = true)
    (opened : (Reading.template cs).closed = false) :
    Reads slashOpensRegex braceResumesTemplate c cs
      ⟨.fault .unterminatedTemplate, c :: (Reading.template cs).taken⟩ (Reading.template cs).rest
  /-- A number. -/
  | number {c : Char} {cs : List Char}
    (hc : c.isDigit = true ∨ c = '.' ∧ cs.head?.any Char.isDigit = true) :
    Reads slashOpensRegex braceResumesTemplate c cs
      ⟨.number, (Piece.number c cs).1.text⟩ (Piece.number c cs).2
  /-- A regular expression with its flags. -/
  | regex {cs : List Char} (hslash : slashOpensRegex = true) (hline : cs.head? ≠ some '/')
    (hblock : cs.head? ≠ some '*') (closed : (Reading.regex false cs).closed = true) :
    Reads slashOpensRegex braceResumesTemplate '/' cs
      ⟨.regex, '/' :: (Reading.regex false cs).taken ++
        (Reading.regex false cs).rest.takeWhile Char.isAlpha⟩
      ((Reading.regex false cs).rest.dropWhile Char.isAlpha)
  /-- A regular expression without its closing slash. -/
  | openRegex {cs : List Char} (hslash : slashOpensRegex = true) (hline : cs.head? ≠ some '/')
    (hblock : cs.head? ≠ some '*') (opened : (Reading.regex false cs).closed = false) :
    Reads slashOpensRegex braceResumesTemplate '/' cs
      ⟨.fault .unterminatedRegex, '/' :: (Reading.regex false cs).taken⟩ (Reading.regex false cs).rest
  /-- A name. -/
  | name {c : Char} {cs : List Char} (hc : startsName c = true) :
    Reads slashOpensRegex braceResumesTemplate c cs
      ⟨.identifier, c :: cs.takeWhile continuesName⟩ (cs.dropWhile continuesName)
  /-- A punctuation character. A slash then divides, and a closing brace closes a block. -/
  | punct {c : Char} {cs : List Char} (hc : isAsciiPunctuation c = true) (hname : startsName c = false)
    (hquote : c ≠ '"' ∧ c ≠ '\'' ∧ c ≠ '\x60' ∧ c ≠ '\\')
    (hslash : c = '/' → slashOpensRegex = false ∧ cs.head? ≠ some '/' ∧ cs.head? ≠ some '*')
    (hbrace : c = '}' → braceResumesTemplate = false)
    (hpoint : c = '.' → cs.head?.any Char.isDigit = false) :
    Reads slashOpensRegex braceResumesTemplate c cs ⟨.punct, [c]⟩ cs
  /-- A character that begins no token. -/
  | invalid {c : Char} {cs : List Char} (hname : startsName c = false)
    (hc : isAsciiPunctuation c = false ∨ c = '\\') :
    Reads slashOpensRegex braceResumesTemplate c cs ⟨.fault .invalidCharacter, [c]⟩ cs

private theorem eq_cons_of_head? {c : Char} {cs : List Char} (h : cs.head? = some c) :
    ∃ ds, cs = c :: ds := by
  cases cs with
  | nil => simp at h
  | cons d ds => exact ⟨ds, by rw [Option.some.inj h]⟩

/-- Reading does one of the listed things. -/
theorem reads_read (a b : Bool) (c : Char) (cs : List Char) :
    Reads a b c cs (read a b c cs).1 (read a b c cs).2 := by
  unfold read
  split
  · next h => exact .blank h
  split
  · next h =>
    obtain ⟨rfl, hd⟩ : c = '/' ∧ cs.head? = some '/' := by simpa using h
    obtain ⟨ds, rfl⟩ := eq_cons_of_head? hd
    exact .lineComment ds
  next hline =>
  split
  · next h =>
    obtain ⟨rfl, hd⟩ : c = '/' ∧ cs.head? = some '*' := by simpa using h
    obtain ⟨ds, rfl⟩ := eq_cons_of_head? hd
    cases hr : (Reading.blockComment ds).closed with
    | true => simpa [ofReading, hr] using Reads.blockComment hr
    | false => simpa [ofReading, hr] using Reads.openComment hr
  next hblock =>
  split
  · next h =>
    have hc : c = '"' ∨ c = '\'' := by simpa using h
    cases hr : (Reading.string c cs).closed with
    | true => simpa [ofReading, hr] using Reads.string hc hr
    | false => simpa [ofReading, hr] using Reads.openString hc hr
  next hquote =>
  split
  · next h =>
    have hc : c = '\x60' ∨ c = '}' ∧ b = true := by simpa using h
    cases hr : (Reading.template cs).closed with
    | true => simpa [ofReading, hr] using Reads.template hc hr
    | false => simpa [ofReading, hr] using Reads.openTemplate hc hr
  next htemplate =>
  split
  · next h => exact .number (by simpa using h)
  next hnumber =>
  split
  · next h =>
    obtain ⟨rfl, ha⟩ : c = '/' ∧ a = true := by simpa using h
    have hl : cs.head? ≠ some '/' := by simpa using hline
    have hb : cs.head? ≠ some '*' := by simpa using hblock
    cases hr : (Reading.regex false cs).closed with
    | true => simpa [Piece.regex, hr] using Reads.regex ha hl hb hr
    | false => simpa [Piece.regex, hr] using Reads.openRegex ha hl hb hr
  next hregex =>
  split
  · next h => exact .name h
  next hname =>
  have hname : startsName c = false := by simpa using hname
  split
  · next h =>
    obtain ⟨hp, hback⟩ : isAsciiPunctuation c = true ∧ c ≠ '\\' := by simpa using h
    have hq : c ≠ '"' ∧ c ≠ '\'' := by simpa using hquote
    have ht : c ≠ '\x60' ∧ (c = '}' → b = false) := by simpa using htemplate
    refine .punct hp hname ⟨hq.1, hq.2, ht.1, hback⟩ ?_ ht.2 ?_
    · rintro rfl
      exact ⟨by simpa using hregex, by simpa using hline, by simpa using hblock⟩
    · rintro rfl
      simpa using hnumber
  · next h =>
    refine .invalid hname ?_
    by_cases hp : isAsciiPunctuation c = true
    · exact Or.inr (by simpa [hp] using h)
    · exact Or.inl (by simpa using hp)

end Piece

namespace Reading

/-- The text of a closed block comment ends at its first closing mark. -/
theorem blockComment_first_mark {cs : List Char} (h : (blockComment cs).closed = true) :
    (∃ body, (blockComment cs).taken = body ++ ['*', '/']) ∧
      ∀ a b, (blockComment cs).taken = a ++ '*' :: '/' :: b → b = [] := by
  fun_induction blockComment cs with
  | case1 => simp at h
  | case2 => simp at h
  | case3 c d cs hcd =>
    obtain ⟨rfl, rfl⟩ := hcd
    refine ⟨⟨[], rfl⟩, fun a b hab => ?_⟩
    have hlen := congrArg List.length hab
    simp only [complete_taken, List.length_append, List.length_cons, List.length_nil] at hlen
    exact List.length_eq_zero_iff.mp (by omega)
  | case4 c d cs hcd ih =>
    obtain ⟨⟨body, hbody⟩, hfirst⟩ := ih h
    refine ⟨⟨c :: body, by rw [cons_taken, hbody]; rfl⟩, fun a b hab => ?_⟩
    rw [cons_taken] at hab
    cases a with
    | nil =>
      -- The mark would begin at `c`, and then `d` would be its second character.
      obtain ⟨rfl, htaken⟩ := List.cons.inj hab
      have happ := blockComment_taken_append (d :: cs)
      rw [htaken, List.cons_append] at happ
      exact absurd ⟨rfl, (List.cons.inj happ).1.symm⟩ hcd
    | cons x a => exact hfirst a b (List.cons.inj hab).2

end Reading

end ModuleBuild
