import Mathlib.Data.List.TakeWhile
import ModuleBuild.Proofs.Text.Classes
import ModuleBuild.Proofs.Token.Pieces
import ModuleBuild.Proofs.Token.Readers
import ModuleBuild.Proofs.Token.Shapes

/-!
# Reading pieces again

A piece that was read somewhere need not be read in the same way elsewhere. Three things decide: what
a slash and a closing brace mean there (`Piece.fits`), and whether the character behind the piece would
be taken in by it (`Piece.absorbs`). Nothing else does, so a list of pieces can be told apart again in
the text that they make up exactly if each of them fits the context that the pieces before it leave,
and none absorbs the beginning of the one behind it.

Main statements: `Piece.Reads.append`, by which a piece that fits is read again in front of any text
that it does not absorb; and `Context.pieces_flatMap_eq_iff`, which is the condition for lists.
-/

namespace ModuleBuild

namespace Piece

/-! ## What stands around a piece -/

/-- Whether a number that begins with these characters is hexadecimal. -/
def isHexadecimal (c : Char) (cs : List Char) : Bool :=
  c = '0' && (cs.head? = some 'x' || cs.head? = some 'X')

/-- Whether the piece would take in the character `d` if that stood right behind it. -/
def absorbs (p : Piece) (d : Char) : Bool :=
  match p.kind, p.text with
  | .lineComment, _ => d != '\n'
  | .identifier, _ => continuesName d
  | .number, c :: cs => Reading.continuesNumber (isHexadecimal c cs) (cs.getLastD c) d
  | .regex, _ => d.isAlpha
  | .punct, ['.'] => d.isDigit
  | .punct, ['/'] => d = '/' || d = '*'
  | _, _ => false

@[simp] theorem absorbs_lineComment (text : List Char) (d : Char) :
    absorbs ⟨.lineComment, text⟩ d = (d != '\n') := by
  cases text <;> rfl

@[simp] theorem absorbs_identifier (text : List Char) (d : Char) :
    absorbs ⟨.identifier, text⟩ d = continuesName d := by
  cases text <;> rfl

@[simp] theorem absorbs_regex (text : List Char) (d : Char) :
    absorbs ⟨.regex, text⟩ d = d.isAlpha := by
  cases text <;> rfl

/-- Whether the piece would take in the beginning of `q` if that stood right behind it. -/
def joins (p q : Piece) : Bool := q.text.head?.any p.absorbs

/-- Whether a piece can stand where a slash and a closing brace have these meanings. -/
def fits (slashOpensRegex braceResumesTemplate : Bool) (p : Piece) : Bool :=
  match p.kind, p.text with
  | .regex, _ => slashOpensRegex
  | .punct, ['/'] => !slashOpensRegex
  | .punct, ['}'] => !braceResumesTemplate
  | .template, '}' :: _ => braceResumesTemplate
  | _, _ => true

/-! ## Reading is determined -/

/-- What is listed for a piece that is no error is what is read. -/
theorem Reads.read_eq {a b : Bool} {c : Char} {cs rest : List Char} {p : Piece}
    (h : Reads a b c cs p rest) (hp : p.tokenKind? ≠ some .error) : read a b c cs = (p, rest) := by
  cases h with
  | openComment | openString | openTemplate | openRegex | invalid => exact absurd rfl hp
  | blank hc => simp [read, hc]
  | lineComment ds =>
    have hblank : Text.isBlank '/' = false := by decide
    simp [read, hblank, Piece.lineComment]
  | blockComment closed =>
    have hblank : Text.isBlank '/' = false := by decide
    simp [read, hblank, ofReading, closed]
  | string hc closed =>
    have hblank : Text.isBlank c = false := by
      rcases hc with rfl | rfl <;> decide
    have hslash : c ≠ '/' := by
      rcases hc with rfl | rfl <;> decide
    simp [read, hblank, hslash, hc, ofReading, closed]
  | template hc closed =>
    have hblank : Text.isBlank c = false := by
      rcases hc with rfl | ⟨rfl, -⟩ <;> decide
    have hslash : c ≠ '/' := by
      rcases hc with rfl | ⟨rfl, -⟩ <;> decide
    have hquote : ¬(c = '"' ∨ c = '\'') := by
      rcases hc with rfl | ⟨rfl, -⟩ <;> decide
    have htemplate : (c = '\x60' || (c = '}' && b)) = true := by simpa using hc
    simp [read, hblank, hslash, hquote, htemplate, ofReading, closed]
  | number hc =>
    have hmarks : Text.isBlank c = false ∧ c ≠ '/' ∧ c ≠ '"' ∧ c ≠ '\'' ∧ c ≠ '\x60' ∧ c ≠ '}' := by
      rcases hc with hc | ⟨rfl, -⟩
      · refine ⟨isBlank_eq_false_of_isDigit hc, ?_, ?_, ?_, ?_, ?_⟩ <;>
          · rintro rfl
            exact absurd hc (by decide)
      · decide
    obtain ⟨hblank, hslash, hdouble, hsingle, hback, hbrace⟩ := hmarks
    have hnumber : (c.isDigit || (c = '.' && cs.head?.any Char.isDigit)) = true := by simpa using hc
    simp [read, hblank, hslash, hdouble, hsingle, hback, hbrace, hnumber, Piece.number]
  | regex hslash hline hblock closed =>
    have hblank : Text.isBlank '/' = false := by decide
    simp [read, hblank, hline, hblock, hslash, Piece.regex, closed]
  | name hc =>
    have hdigit : c.isDigit = false := by
      by_contra hdigit
      rw [startsName_eq_false_of_isDigit (by simpa using hdigit)] at hc
      cases hc
    have hmarks : c ≠ '/' ∧ c ≠ '"' ∧ c ≠ '\'' ∧ c ≠ '\x60' ∧ c ≠ '}' ∧ c ≠ '.' := by
      refine ⟨?_, ?_, ?_, ?_, ?_, ?_⟩ <;>
        · rintro rfl
          exact absurd hc (by decide)
    obtain ⟨hslash, hdouble, hsingle, hback, hbrace, hpoint⟩ := hmarks
    simp [read, isBlank_eq_false_of_startsName hc, hslash, hdouble, hsingle, hback, hbrace, hdigit,
      hpoint, hc, Piece.name]
  | punct hc hname hquote hslash hbrace hpoint =>
    obtain ⟨hdouble, hsingle, hback, hescape⟩ := hquote
    have hline : ¬(c = '/' ∧ cs.head? = some '/') := fun h => (hslash h.1).2.1 h.2
    have hblock : ¬(c = '/' ∧ cs.head? = some '*') := fun h => (hslash h.1).2.2 h.2
    have htemplate : ¬(c = '}' ∧ b = true) := fun h => by simp [hbrace h.1] at h
    have hnumber : ¬(c = '.' ∧ cs.head?.any Char.isDigit = true) := fun h => by
      simp [hpoint h.1] at h
    have hregex : ¬(c = '/' ∧ a = true) := fun h => by simp [(hslash h.1).1] at h
    simp [read, isBlank_eq_false_of_isAsciiPunctuation hc,
      isDigit_eq_false_of_isAsciiPunctuation hc, hline, hblock, hdouble, hsingle, hback, htemplate,
      hnumber, hregex, hname, hc, hescape]

/-- Besides single characters that begin no token, what is listed is what is read. -/
theorem Reads.read_eq_of_ne_invalid {a b : Bool} {c : Char} {cs rest : List Char} {p : Piece}
    (h : Reads a b c cs p rest) (hp : p.kind ≠ .fault .invalidCharacter) :
    read a b c cs = (p, rest) := by
  by_cases herror : p.tokenKind? = some .error
  · cases h with
    | openComment opened =>
      have hblank : Text.isBlank '/' = false := by decide
      simp [read, hblank, ofReading, opened]
    | openString hc opened =>
      have hblank : Text.isBlank c = false := by
        rcases hc with rfl | rfl <;> decide
      have hslash : c ≠ '/' := by
        rcases hc with rfl | rfl <;> decide
      simp [read, hblank, hslash, hc, ofReading, opened]
    | openTemplate hc opened =>
      have hblank : Text.isBlank c = false := by
        rcases hc with rfl | ⟨rfl, -⟩ <;> decide
      have hslash : c ≠ '/' := by
        rcases hc with rfl | ⟨rfl, -⟩ <;> decide
      have hquote : ¬(c = '"' ∨ c = '\'') := by
        rcases hc with rfl | ⟨rfl, -⟩ <;> decide
      have htemplate : (c = '\x60' || (c = '}' && b)) = true := by simpa using hc
      simp [read, hblank, hslash, hquote, htemplate, ofReading, opened]
    | openRegex hslash hline hblock opened =>
      have hblank : Text.isBlank '/' = false := by decide
      simp [read, hblank, hline, hblock, hslash, Piece.regex, opened]
    | invalid => exact absurd rfl hp
    | _ => cases herror
  · exact h.read_eq herror

/-- A character that begins no token at one place begins none anywhere. -/
theorem read_eq_invalid {a b : Bool} {c : Char} {cs : List Char}
    (h : (read a b c cs).1.kind = .fault .invalidCharacter) (a' b' : Bool) (ds : List Char) :
    read a' b' c ds = (⟨.fault .invalidCharacter, [c]⟩, ds) := by
  have hblank : Text.isBlank c = false := by
    by_contra hblank
    rw [Bool.not_eq_false] at hblank
    rw [(Reads.blank hblank : Reads a b c cs _ _).read_eq (by simp [tokenKind?])] at h
    cases h
  have hdigit : c.isDigit = false := by
    by_contra hdigit
    rw [Bool.not_eq_false] at hdigit
    rw [(Reads.number (Or.inl hdigit) : Reads a b c cs _ _).read_eq (by simp [tokenKind?])] at h
    cases h
  have hreads := reads_read a b c cs
  generalize read a b c cs = r at h hreads
  obtain ⟨p, rest⟩ := r
  dsimp only at h hreads
  cases hreads with
  | invalid hname hc =>
    have hmark : ∀ e : Char, isAsciiPunctuation e = true → e ≠ '\\' → c ≠ e := by
      rintro e hpunct hback rfl
      rcases hc with hc | hc
      · rw [hpunct] at hc
        cases hc
      · exact hback hc
    have hslash : c ≠ '/' := hmark _ (by decide) (by decide)
    have hdouble : c ≠ '"' := hmark _ (by decide) (by decide)
    have hsingle : c ≠ '\'' := hmark _ (by decide) (by decide)
    have htick : c ≠ '\x60' := hmark _ (by decide) (by decide)
    have hbrace : c ≠ '}' := hmark _ (by decide) (by decide)
    have hpoint : c ≠ '.' := hmark _ (by decide) (by decide)
    have hpunct : ¬(isAsciiPunctuation c = true ∧ c ≠ '\\') := by
      rintro ⟨hpunct, hback⟩
      exact hmark c hpunct hback rfl
    simp [read, hblank, hdigit, hname, hslash, hdouble, hsingle, htick, hbrace, hpoint]
    simpa using hpunct
  | _ => cases h

theorem Reads.fits {a b : Bool} {c : Char} {cs rest : List Char} {p : Piece}
    (h : Reads a b c cs p rest) : p.fits a b = true := by
  cases h with
  | blank | lineComment | blockComment | openComment | string | openString | openTemplate | number
  | openRegex | name | invalid => rfl
  | regex hslash => exact hslash
  | template hc =>
    rcases hc with rfl | ⟨rfl, hb⟩
    · rfl
    · exact hb
  | @punct _ _ hc hname hquote hslash hbrace hpoint =>
    by_cases h1 : c = '/'
    · subst h1
      simp [Piece.fits, (hslash rfl).1]
    by_cases h2 : c = '}'
    · subst h2
      simp [Piece.fits, hbrace rfl]
    simp [Piece.fits, h1, h2]

/-! ## Numbers -/

theorem isHexadecimal_eq_false {c d previous : Char} {cs : List Char} {hexadecimal : Bool}
    (h : Reading.continuesNumber hexadecimal previous d = false) :
    isHexadecimal c (d :: cs) = false := by
  have hlower : d ≠ 'x' := by
    rintro rfl
    exact absurd h (by simp [Reading.continuesNumber])
  have hupper : d ≠ 'X' := by
    rintro rfl
    exact absurd h (by simp [Reading.continuesNumber])
  simp [isHexadecimal, hlower, hupper]

theorem isHexadecimal_taken {hexadecimal : Bool} (c : Char) (cs : List Char) :
    isHexadecimal c (Reading.number hexadecimal c cs).1 = isHexadecimal c cs := by
  cases cs with
  | nil => rfl
  | cons d cs =>
    rw [Reading.number]
    split
    · rfl
    · next h =>
      rw [isHexadecimal_eq_false (by simpa using h)]
      simp [isHexadecimal]

/-- A number in front of text with which it does not go on is the same number. -/
theorem number_append {c : Char} {cs rest : List Char}
    (h : ∀ d, rest.head? = some d → absorbs ⟨.number, (number c cs).1.text⟩ d = false) :
    number c ((number c cs).1.text.tail ++ rest) = (⟨.number, (number c cs).1.text⟩, rest) := by
  have hnumber : ∀ ds, number c ds =
      (⟨.number, c :: (Reading.number (isHexadecimal c ds) c ds).1⟩,
        (Reading.number (isHexadecimal c ds) c ds).2) := fun _ => rfl
  rw [hnumber cs] at h ⊢
  rw [hnumber, List.tail_cons]
  simp only [absorbs, isHexadecimal_taken] at h
  have hhexadecimal :
      isHexadecimal c ((Reading.number (isHexadecimal c cs) c cs).1 ++ rest) = isHexadecimal c cs := by
    have htaken := @isHexadecimal_taken (isHexadecimal c cs) c cs
    cases ht : (Reading.number (isHexadecimal c cs) c cs).1 with
    | cons d ds =>
      rw [ht] at htaken
      exact htaken
    | nil =>
      rw [ht] at htaken
      cases rest with
      | nil => exact htaken
      | cons d rest =>
        rw [← htaken, List.nil_append, isHexadecimal_eq_false (h d rfl)]
        simp [isHexadecimal]
  rw [hhexadecimal, Reading.number_append_rest h]

/-! ## Where a piece ends -/

/-- A piece does not take in the character behind it. -/
theorem Reads.absorbs_eq_false {a b : Bool} {c d : Char} {cs rest : List Char} {p : Piece}
    (h : Reads a b c cs p rest) (hd : rest.head? = some d) : p.absorbs d = false := by
  cases h with
  | blank | blockComment | openComment | string | openString | template | openTemplate
  | openRegex | invalid => rfl
  | lineComment ds =>
    have hstop := List.head?_dropWhile_not (· != '\n') ds
    rw [hd] at hstop
    simpa using hstop
  | number hc =>
    have hstop := Reading.number_stops hd
    show Reading.continuesNumber (isHexadecimal c _) _ d = false
    rw [isHexadecimal_taken]
    exact hstop
  | regex hslash hline hblock closed =>
    have hstop := List.head?_dropWhile_not Char.isAlpha (Reading.regex false cs).rest
    rw [hd] at hstop
    rw [absorbs_regex]
    exact hstop
  | name hc =>
    have hstop := List.head?_dropWhile_not continuesName cs
    rw [hd] at hstop
    simpa using hstop
  | punct hc hname hquote hslash hbrace hpoint =>
    by_cases h1 : c = '/'
    · subst h1
      have hmarks := hslash rfl
      have hline : d ≠ '/' := fun hcon => hmarks.2.1 (hcon ▸ hd)
      have hblock : d ≠ '*' := fun hcon => hmarks.2.2 (hcon ▸ hd)
      simp [Piece.absorbs, hline, hblock]
    by_cases h2 : c = '.'
    · subst h2
      have hdigit := hpoint rfl
      rw [hd] at hdigit
      simpa [Piece.absorbs] using hdigit
    simp [Piece.absorbs, h1, h2]

/-- Only a line comment takes in a character that goes on with no name and no number and is none of
these marks. -/
theorem absorbs_eq_false {p : Piece} {d : Char} (hp : p.kind ≠ .lineComment)
    (hname : continuesName d = false) (hascii : d.isAlphanum = false)
    (hmark : d ∉ ['.', '_', '+', '-', '/', '*']) : p.absorbs d = false := by
  have hletter : d.isAlpha = false ∧ d.isDigit = false := by simpa [Char.isAlphanum] using hascii
  obtain ⟨kind, text⟩ := p
  cases kind with
  | lineComment => exact absurd rfl hp
  | blank | blockComment | string | template | fault => cases text <;> rfl
  | identifier => exact (absorbs_identifier text d).trans hname
  | number =>
    cases text with
    | nil => rfl
    | cons c cs => simp_all [absorbs, Reading.continuesNumber]
  | regex => exact (absorbs_regex text d).trans hletter.1
  | punct =>
    unfold absorbs
    split <;> simp_all

/-- Nothing but a comment takes in a blank. -/
theorem absorbs_eq_false_of_isBlank {p : Piece} {d : Char} (hp : p.isComment = false)
    (hd : Text.isBlank d = true) : p.absorbs d = false := by
  have hrange := Text.toNat_of_isBlank hd
  have hmark : ∀ e : Char, 33 ≤ e.toNat → e.toNat ≤ 126 → d ≠ e := by
    rintro e hlow hhigh rfl
    omega
  refine absorbs_eq_false ?_ ?_ (Text.isAlphanum_eq_false_of_isBlank hd) (by simp [hmark])
  · intro hkind
    simp [isComment, hkind] at hp
  · simp [continuesName, Text.isAlphanumeric, Text.isAlphabetic_eq_false_of_isBlank hd,
      Text.isNumeric_eq_false_of_isBlank hd, hmark]

/-- Nothing but a line comment takes in a closing brace. -/
theorem absorbs_brace {p : Piece} (hp : p.kind ≠ .lineComment) : p.absorbs '}' = false :=
  absorbs_eq_false hp (by decide) (by decide) (by decide)

theorem Reads.text_eq_cons {a b : Bool} {c : Char} {cs rest : List Char} {p : Piece}
    (h : Reads a b c cs p rest) : p.text = c :: p.text.tail := by
  cases h <;> rfl

/-- What is taken while `p` holds is taken again in front of text that begins with something else. -/
theorem takeWhile_append_stop (p : Char → Bool) (cs : List Char) {rest : List Char}
    (h : ∀ d, rest.head? = some d → p d = false) :
    (cs.takeWhile p ++ rest).takeWhile p = cs.takeWhile p ∧
      (cs.takeWhile p ++ rest).dropWhile p = rest := by
  have hall : ∀ d ∈ cs.takeWhile p, p d = true := fun d hd => List.mem_takeWhile_imp hd
  rw [List.takeWhile_append_of_pos hall, List.dropWhile_append_of_pos hall]
  cases rest with
  | nil => simp
  | cons d rest =>
    have hd := h d rfl
    simp [hd]

/-- A piece that is no error is read again wherever it fits, in front of any text that it does not
absorb. -/
theorem Reads.append {a b a' b' : Bool} {c : Char} {cs rest rest' : List Char} {p : Piece}
    (h : Reads a b c cs p rest) (hp : p.tokenKind? ≠ some .error) (hfits : p.fits a' b' = true)
    (hrest : ∀ d, rest'.head? = some d → p.absorbs d = false) :
    Reads a' b' c (p.text.tail ++ rest') p rest' := by
  cases h with
  | openComment | openString | openTemplate | openRegex | invalid => exact absurd rfl hp
  | blank hc => exact .blank hc
  | lineComment ds =>
    obtain ⟨htake, hdrop⟩ := takeWhile_append_stop (· != '\n') ds
      (fun d hd => (absorbs_lineComment _ d).symm.trans (hrest d hd))
    have hreads := @Reads.lineComment a' b'
      (ds.takeWhile (· != '\n') ++ rest')
    rwa [htake, hdrop] at hreads
  | @blockComment ds closed =>
    have hagain := Reading.blockComment_append closed rest'
    have hreads := @Reads.blockComment a' b' ((Reading.blockComment ds).taken ++ rest')
      (by rw [hagain])
    rwa [hagain] at hreads
  | string hc closed =>
    have hagain := Reading.string_append closed rest'
    have hreads := @Reads.string a' b' c ((Reading.string c cs).taken ++ rest') hc (by rw [hagain])
    rwa [hagain] at hreads
  | template hc closed =>
    have hagain := Reading.template_append closed rest'
    have hc' : c = '\x60' ∨ c = '}' ∧ b' = true := by
      rcases hc with rfl | ⟨rfl, -⟩
      · exact Or.inl rfl
      · exact Or.inr ⟨rfl, hfits⟩
    have hreads := @Reads.template a' b' c ((Reading.template cs).taken ++ rest') hc'
      (by rw [hagain])
    rwa [hagain] at hreads
  | @number _ cs hc =>
    have hagain := number_append hrest
    have hc' : c.isDigit = true ∨
        c = '.' ∧ ((Piece.number c cs).1.text.tail ++ rest').head?.any Char.isDigit = true := by
      refine hc.imp_right fun ⟨hpoint, hdigit⟩ => ⟨hpoint, ?_⟩
      -- The digit behind the point belongs to the number.
      cases cs with
      | nil => simp at hdigit
      | cons d ds =>
        have hd : d.isDigit = true := by simpa using hdigit
        have hcontinues : ∀ x, Reading.continuesNumber x c d = true := fun x => by
          simp [Reading.continuesNumber, Char.isAlphanum, hd]
        simp [Piece.number, Reading.number, hcontinues, hd]
    have hreads := @Reads.number a' b' c _ hc'
    rwa [hagain] at hreads
  | @regex cs hslash hline hblock closed =>
    obtain ⟨htake, hdrop⟩ := takeWhile_append_stop Char.isAlpha (Reading.regex false cs).rest
      (fun d hd => (absorbs_regex _ d).symm.trans (hrest d hd))
    have hagain := Reading.regex_append closed
      ((Reading.regex false cs).rest.takeWhile Char.isAlpha ++ rest')
    have hhead : ((Reading.regex false cs).taken ++
        ((Reading.regex false cs).rest.takeWhile Char.isAlpha ++ rest')).head? = cs.head? := by
      rw [List.head?_append, Reading.head?_taken_regex closed]
      cases cs with
      | nil => simp [Reading.regex] at closed
      | cons d ds => rfl
    have hreads := @Reads.regex a' b' _ hfits (by rw [hhead]; exact hline)
      (by rw [hhead]; exact hblock) (by rw [hagain])
    rw [hagain] at hreads
    dsimp only at hreads
    rw [htake, hdrop] at hreads
    simpa using hreads
  | name hc =>
    obtain ⟨htake, hdrop⟩ := takeWhile_append_stop continuesName cs
      (fun d hd => (absorbs_identifier _ d).symm.trans (hrest d hd))
    have hreads := @Reads.name a' b' c (cs.takeWhile continuesName ++ rest') hc
    rwa [htake, hdrop] at hreads
  | punct hc hname hquote hslash hbrace hpoint =>
    refine .punct hc hname hquote ?_ ?_ ?_
    · rintro rfl
      refine ⟨by simpa [Piece.fits] using hfits, fun hd => ?_, fun hd => ?_⟩
      · exact absurd (hrest _ hd) (by simp [absorbs])
      · exact absurd (hrest _ hd) (by simp [absorbs])
    · rintro rfl
      simpa [Piece.fits] using hfits
    · rintro rfl
      cases rest' with
      | nil => rfl
      | cons d rest' => exact hrest d rfl

/-! ## Pieces that are read somewhere -/

/-- The piece is read at some place, and it is no error. -/
def Legible (p : Piece) : Prop :=
  p.tokenKind? ≠ some .error ∧ ∃ a b c cs rest, Reads a b c cs p rest

/-- No piece takes in the beginning of the one behind it. -/
def Apart (ps : List Piece) : Prop := ps.IsChain fun p q => p.joins q = false

instance (ps : List Piece) : Decidable (Apart ps) :=
  inferInstanceAs (Decidable (ps.IsChain _))

/-- A legible piece is a comment, a blank character, or a token that does not begin with a blank. -/
theorem Legible.cases {p : Piece} (h : p.Legible) :
    p.isComment = true ∨ (∃ c, p = ⟨.blank, [c]⟩ ∧ Text.isBlank c = true) ∨
      ∃ kind c cs, p.tokenKind? = some kind ∧ kind ≠ .error ∧ p.text = c :: cs ∧
        Text.isBlank c = false := by
  obtain ⟨herror, a, b, c, cs, rest, hreads⟩ := h
  have hread := hreads.read_eq herror
  cases hblank : Text.isBlank c with
  | true =>
    rw [read, if_pos hblank] at hread
    exact Or.inr (Or.inl ⟨c, (Prod.mk.inj hread).1.symm, hblank⟩)
  | false =>
    have htext := hreads.text_eq_cons
    cases hkind : p.tokenKind? with
    | some kind => exact Or.inr (Or.inr ⟨kind, c, _, rfl, fun h => herror (h ▸ hkind), htext, hblank⟩)
    | none =>
      left
      cases hreads <;> simp_all [tokenKind?, isComment]

theorem Legible.text_ne_nil {p : Piece} (h : p.Legible) : p.text ≠ [] := by
  obtain ⟨-, a, b, c, cs, rest, hreads⟩ := h
  rw [hreads.text_eq_cons]
  exact List.cons_ne_nil _ _

theorem joins_eq_false_iff {p q : Piece} (hq : q.text ≠ []) (rest : List Char) :
    p.joins q = false ↔ ∀ d, (q.text ++ rest).head? = some d → p.absorbs d = false := by
  obtain ⟨d, ds, htext⟩ := List.exists_cons_of_ne_nil hq
  simp [joins, htext]

end Piece

namespace Context

/-- Whether the context gives the beginning of the piece the meaning that the piece has. -/
def admits (k : Context) (p : Piece) : Bool := p.fits k.slashOpensRegex k.braceResumesTemplate

/-- Each piece is admitted by the context that the pieces before it leave. -/
def AdmitsAll (k : Context) : List Piece → Prop
  | [] => True
  | p :: ps => k.admits p = true ∧ (k.after p).AdmitsAll ps

instance decidableAdmitsAll (k : Context) : (ps : List Piece) → Decidable (k.AdmitsAll ps)
  | [] => inferInstanceAs (Decidable True)
  | p :: ps =>
    have := decidableAdmitsAll (k.after p) ps
    inferInstanceAs (Decidable (_ ∧ _))

theorem reads_read (k : Context) (c : Char) (cs : List Char) :
    Piece.Reads k.slashOpensRegex k.braceResumesTemplate c cs (k.read c cs).1 (k.read c cs).2 :=
  Piece.reads_read ..

theorem admitsAll_pieces (k : Context) (cs : List Char) : k.AdmitsAll (k.pieces cs) := by
  induction k, cs using pieces.induct with
  | case1 k => simp [AdmitsAll]
  | case2 k c cs ih =>
    rw [pieces_cons]
    exact ⟨(k.reads_read c cs).fits, ih⟩

/-- No piece of a text takes in the beginning of the next. -/
theorem apart_pieces (k : Context) (cs : List Char) : Piece.Apart (k.pieces cs) := by
  induction k, cs using pieces.induct with
  | case1 k => simp [Piece.Apart]
  | case2 k c cs ih =>
    rw [pieces_cons]
    cases hrest : (k.read c cs).2 with
    | nil => simp [Piece.Apart]
    | cons d ds =>
      rw [hrest, pieces_cons] at ih
      rw [pieces_cons]
      refine List.isChain_cons_cons.mpr ⟨?_, ih⟩
      have hhead : (((k.after (k.read c cs).1).read d ds).1.text).head? = some d := by
        rw [(reads_read _ d ds).text_eq_cons]
        rfl
      unfold Piece.joins
      rw [hhead, Option.any_some]
      exact (k.reads_read c cs).absorbs_eq_false (by rw [hrest]; rfl)

/-- Pieces are still admitted when some are left out that are no tokens. -/
theorem AdmitsAll.filter {k : Context} {ps : List Piece} (h : k.AdmitsAll ps) {stays : Piece → Bool}
    (hstays : ∀ p ∈ ps, stays p = false → p.tokenKind? = none) : k.AdmitsAll (ps.filter stays) := by
  induction ps generalizing k with
  | nil => exact h
  | cons p ps ih =>
    have hrest := ih h.2 fun q hq => hstays q (List.mem_cons_of_mem _ hq)
    cases hp : stays p with
    | true =>
      rw [List.filter_cons_of_pos hp]
      exact ⟨h.1, hrest⟩
    | false =>
      rw [List.filter_cons_of_neg (by simp [hp])]
      rwa [after_of_tokenKind?_eq_none (hstays p List.mem_cons_self hp)] at hrest

theorem legible_of_mem_pieces {k : Context} {cs : List Char} {p : Piece} (h : p ∈ k.pieces cs)
    (hp : p.tokenKind? ≠ some .error) : p.Legible := by
  obtain ⟨qs, rs, hsplit⟩ := List.append_of_mem h
  obtain ⟨c, ds, -, rfl, -⟩ := eq_read_of_pieces_eq hsplit
  exact ⟨hp, _, _, c, ds, _, reads_read ..⟩

/-- A piece is read at the front of its own text exactly if the context admits it and it does not
absorb what follows. -/
theorem read_eq_iff {k : Context} {p : Piece} (hp : p.Legible) {c : Char} {cs rest : List Char}
    (htext : c :: cs = p.text ++ rest) :
    k.read c cs = (p, rest) ↔
      k.admits p = true ∧ ∀ d, rest.head? = some d → p.absorbs d = false := by
  constructor
  · intro hread
    have hreads := k.reads_read c cs
    rw [hread] at hreads
    exact ⟨hreads.fits, fun d hd => hreads.absorbs_eq_false hd⟩
  · rintro ⟨hadmits, hrest⟩
    obtain ⟨herror, a, b, c', cs', rest', hreads⟩ := hp
    have hagain := hreads.append herror hadmits hrest
    rw [hreads.text_eq_cons, List.cons_append] at htext
    obtain ⟨rfl, rfl⟩ := List.cons.inj htext
    exact hagain.read_eq herror

/-- A piece that is admitted is the first one of any text that it begins and does not absorb. -/
theorem pieces_text_append {k : Context} {p : Piece} {rest : List Char} (hp : p.Legible)
    (hadmits : k.admits p = true) (hrest : ∀ d, rest.head? = some d → p.absorbs d = false) :
    k.pieces (p.text ++ rest) = p :: (k.after p).pieces rest := by
  obtain ⟨c, cs, htext⟩ := List.exists_cons_of_ne_nil hp.text_ne_nil
  have happend : c :: (cs ++ rest) = p.text ++ rest := by rw [htext, List.cons_append]
  rw [← happend, pieces_cons, (read_eq_iff hp happend).mpr ⟨hadmits, hrest⟩]

/-- Pieces that are admitted one behind the other and do not run together are the first ones of any
text that begins with them, unless the last one takes in what follows. -/
theorem pieces_flatMap_append {ps : List Piece} (hps : ∀ p ∈ ps, p.Legible) {k : Context}
    (hapart : Piece.Apart ps) (hadmits : k.AdmitsAll ps) {rest : List Char}
    (hrest : ∀ p, ps.getLast? = some p → ∀ d, rest.head? = some d → p.absorbs d = false) :
    k.pieces (ps.flatMap Piece.text ++ rest) = ps ++ (k.afterAll ps).pieces rest := by
  induction ps generalizing k with
  | nil => rfl
  | cons p ps ih =>
    have hps' : ∀ q ∈ ps, q.Legible := fun q hq => hps q (List.mem_cons_of_mem _ hq)
    have hnext : ∀ d, (ps.flatMap Piece.text ++ rest).head? = some d → p.absorbs d = false := by
      cases ps with
      | nil => exact hrest p rfl
      | cons q qs =>
        rw [List.flatMap_cons, List.append_assoc]
        apply (Piece.joins_eq_false_iff (hps' q List.mem_cons_self).text_ne_nil _).mp
        exact (List.isChain_cons_cons.mp hapart).1
    have hlast : ∀ q, ps.getLast? = some q → ∀ d, rest.head? = some d → q.absorbs d = false := by
      intro q hq
      apply hrest q
      rw [List.getLast?_cons, hq]
      rfl
    rw [List.flatMap_cons, List.append_assoc,
      pieces_text_append (hps p List.mem_cons_self) hadmits.1 hnext,
      ih hps' hapart.of_cons hadmits.2 hlast]
    rfl

/-- Pieces are told apart again in the text that they make up exactly if each is admitted and none
absorbs the beginning of the next. -/
theorem pieces_flatMap_eq_iff {ps : List Piece} (hps : ∀ p ∈ ps, p.Legible) (k : Context) :
    k.pieces (ps.flatMap Piece.text) = ps ↔ Piece.Apart ps ∧ k.AdmitsAll ps := by
  constructor
  · intro hpieces
    refine ⟨?_, hpieces ▸ k.admitsAll_pieces _⟩
    rw [← hpieces]
    apply apart_pieces
  · rintro ⟨hapart, hadmits⟩
    have hpieces := @pieces_flatMap_append ps hps k hapart hadmits [] (by simp)
    rwa [List.append_nil, pieces_nil, List.append_nil] at hpieces

end Context

end ModuleBuild
