import Mathlib.Data.Bool.AllAny
import Mathlib.Data.List.Chain
import ModuleBuild.Proofs.Token.Rereading

/-!
# Names, numbers and strings

The operands that a program is written with, described without a look at the text around them:
names, numbers in any notation, and quoted strings. Each of them is one piece, so it is read
wherever it stands, as long as what follows does not go on with it.

A number is the only one of them that takes in a mark. A point always belongs to it, so the name of
a member behind a number is taken in as well, as far as its characters can stand in a number.

Main statements: `Identifier.legible`, `Numeral.legible` and `Quoted.legible`; and
`Piece.Legible.number_point`, by which a number takes in the point behind it and the name behind
that.
-/

namespace ModuleBuild

/-! ## Operands -/

/-- A name or a keyword. A hash mark begins the name of a private member and is no name alone. -/
structure Identifier where
  first : Char
  rest : List Char
  begins : Piece.startsName first = true
  continues : ∀ c ∈ rest, Piece.continuesName c = true
  hash_not_alone : first = '#' → rest ≠ []

/-- A number in any notation. -/
structure Numeral where
  first : Char
  rest : List Char
  begins : first.isDigit = true ∨ first = '.' ∧ rest.head?.any Char.isDigit = true
  continues : (first :: rest).IsChain fun previous c =>
    Reading.continuesNumber (Piece.isHexadecimal first rest) previous c = true

/-- The characters between the quotes of a string: pairs of a backslash and any character, and other
characters among which are neither the quote nor a line feed. -/
inductive Quoted.IsBody (quote : Char) : List Char → Prop where
  | nil : IsBody quote []
  | escape (c : Char) {cs : List Char} (h : IsBody quote cs) : IsBody quote ('\\' :: c :: cs)
  | plain {c : Char} {cs : List Char} (hescape : c ≠ '\\') (hquote : c ≠ quote) (hline : c ≠ '\n')
    (h : IsBody quote cs) : IsBody quote (c :: cs)

/-- A string with its quotes. -/
structure Quoted where
  quote : Char
  body : List Char
  isQuote : quote = '"' ∨ quote = '\''
  isBody : Quoted.IsBody quote body

def Identifier.text (w : Identifier) : List Char := w.first :: w.rest

def Numeral.text (n : Numeral) : List Char := n.first :: n.rest

def Quoted.text (s : Quoted) : List Char := s.quote :: (s.body ++ [s.quote])

/-! ## Names -/

namespace Piece

theorem legible_identifier {c : Char} {cs : List Char} (hfirst : startsName c = true)
    (hrest : ∀ d ∈ cs, continuesName d = true) : Legible ⟨.identifier, c :: cs⟩ := by
  have hreads := @Reads.name false false c cs hfirst
  rw [List.takeWhile_eq_self_iff.mpr hrest] at hreads
  exact ⟨by simp [tokenKind?], false, false, c, cs, _, hreads⟩

/-- Whether a character goes on with any name and with any number. -/
def continuesBoth (c : Char) : Bool := c.isAlphanum || c = '_'

theorem continuesNumber_of_continuesBoth {hexadecimal : Bool} {previous c : Char}
    (h : continuesBoth c = true) : Reading.continuesNumber hexadecimal previous c = true := by
  have hc : c.isAlphanum = true ∨ c = '_' := by simpa [continuesBoth] using h
  rcases hc with hc | rfl <;> simp [Reading.continuesNumber, *]

theorem isDigit_eq_false_of_continuesBoth {c : Char} (h : continuesBoth c = false) :
    c.isDigit = false := by
  have hc : c.isAlphanum = false ∧ c ≠ '_' := by simpa [continuesBoth] using h
  have hneither : c.isAlpha = false ∧ c.isDigit = false := by simpa [Char.isAlphanum] using hc.1
  exact hneither.2

/-- Apart from the point and the signs, nothing else goes on with a number. -/
theorem absorbs_number_eq_false {cs : List Char} {c : Char} (h : continuesBoth c = false)
    (hmark : c ∉ ['.', '+', '-']) : absorbs ⟨.number, cs⟩ c = false := by
  have hc : c.isAlphanum = false ∧ c ≠ '_' := by simpa [continuesBoth] using h
  have hmarks : c ≠ '.' ∧ c ≠ '+' ∧ c ≠ '-' := by simpa using hmark
  cases cs with
  | nil => rfl
  | cons => simp [absorbs, Reading.continuesNumber, hc, hmarks]

end Piece

namespace Identifier

variable (w : Identifier)

theorem legible : Piece.Legible ⟨.identifier, w.text⟩ :=
  Piece.legible_identifier w.begins w.continues

/-- Every character of a name may begin or continue a name. -/
theorem startsName_or_continuesName {c : Char} (h : c ∈ w.text) :
    Piece.startsName c = true ∨ Piece.continuesName c = true := by
  rcases List.mem_cons.mp h with rfl | h
  · exact Or.inl w.begins
  · exact Or.inr (w.continues c h)

theorem not_mark_of_mem {c : Char} (h : c ∈ w.text) : c ∉ ['.', '+', '-'] := by
  intro hmark
  -- To decide the quantifier itself would be to try every character there is.
  have hclasses : ∀ d ∈ ['.', '+', '-'],
      Piece.startsName d = false ∧ Piece.continuesName d = false :=
    List.all_iff_forall_prop.mp (by decide)
  obtain ⟨hstarts, hcontinues⟩ := hclasses c hmark
  rcases w.startsName_or_continuesName h with h | h
  · rw [hstarts] at h
    cases h
  · rw [hcontinues] at h
    cases h

/-- The part of a name that a number in front of it takes in. -/
def taken : List Char := w.text.takeWhile Piece.continuesBoth

/-- The part of a name that a number in front of it leaves. -/
def left : List Char := w.text.dropWhile Piece.continuesBoth

theorem taken_append_left : w.taken ++ w.left = w.text := List.takeWhile_append_dropWhile

theorem continuesBoth_head?_left {c : Char} (h : w.left.head? = some c) :
    Piece.continuesBoth c = false := by
  have hstop := List.head?_dropWhile_not Piece.continuesBoth w.text
  rw [← left, h] at hstop
  simpa using hstop

theorem mem_text_of_mem_left {c : Char} (h : c ∈ w.left) : c ∈ w.text :=
  (List.dropWhile_suffix _).subset h

/-- A number does not go on with what it has left of a name. -/
theorem absorbs_left {n rest : List Char} (hleft : w.left ≠ []) :
    ∀ d, (w.left ++ rest).head? = some d → Piece.absorbs ⟨.number, n⟩ d = false := by
  obtain ⟨c, cs, hcs⟩ := List.exists_cons_of_ne_nil hleft
  intro d hd
  rw [hcs] at hd
  obtain rfl : c = d := Option.some.inj hd
  exact Piece.absorbs_number_eq_false (w.continuesBoth_head?_left (by rw [hcs]; rfl))
    (w.not_mark_of_mem (w.mem_text_of_mem_left (hcs ▸ List.mem_cons_self)))

/-- Behind its first character, what a number leaves of a name goes on with a name. -/
theorem continuesName_of_left_eq {c : Char} {cs : List Char} (h : w.left = c :: cs) :
    ∀ d ∈ cs, Piece.continuesName d = true := by
  have hsplit : w.taken ++ c :: cs = w.first :: w.rest := h ▸ w.taken_append_left
  refine fun d hd => w.continues d ?_
  cases htaken : w.taken with
  | nil =>
    rw [htaken, List.nil_append] at hsplit
    rwa [← (List.cons.inj hsplit).2]
  | cons e es =>
    rw [htaken, List.cons_append] at hsplit
    rw [← (List.cons.inj hsplit).2]
    simp [hd]

/-- Where what a number leaves of a name is no name, it begins with a number of another script. -/
theorem isNumeric_of_left_eq {c : Char} {cs : List Char} (h : w.left = c :: cs)
    (hname : Piece.startsName c = false) : Text.isNumeric c = true := by
  have hcontinues : Piece.continuesName c = true := by
    have hclass := w.startsName_or_continuesName (w.mem_text_of_mem_left (h ▸ List.mem_cons_self))
    rw [hname] at hclass
    simpa using hclass
  simp only [Piece.startsName, Bool.or_eq_false_iff, decide_eq_false_iff_not] at hname
  simpa [Piece.continuesName, Text.isAlphanumeric, hname] using hcontinues

end Identifier

/-! ## Numbers -/

namespace Reading

theorem number_eq_iff {hexadecimal : Bool} {previous : Char} {cs : List Char} :
    number hexadecimal previous cs = (cs, []) ↔
      (previous :: cs).IsChain fun a b => continuesNumber hexadecimal a b = true := by
  induction cs generalizing previous with
  | nil => simp [number]
  | cons c cs ih =>
    rw [number, List.isChain_cons_cons, ← ih]
    cases continuesNumber hexadecimal previous c <;> simp [Prod.ext_iff]

end Reading

namespace Piece

theorem Reads.number_eq {a b : Bool} {c : Char} {cs rest : List Char} {p : Piece}
    (h : Reads a b c cs p rest) (hkind : p.kind = .number) :
    (c.isDigit = true ∨ c = '.' ∧ cs.head?.any Char.isDigit = true) ∧
      Piece.number c cs = (p, rest) := by
  cases h with
  | number hc => exact ⟨hc, rfl⟩
  | _ => simp at hkind

/-- What a number is: it begins with a digit or with a point and a digit, and each further character
goes on with it. -/
theorem legible_number_iff {c : Char} {cs : List Char} :
    Legible ⟨.number, c :: cs⟩ ↔
      (c.isDigit = true ∨ c = '.' ∧ cs.head?.any Char.isDigit = true) ∧
        (c :: cs).IsChain fun a b => Reading.continuesNumber (isHexadecimal c cs) a b = true := by
  rw [← Reading.number_eq_iff]
  have hnumber : number c cs =
      (⟨.number, c :: (Reading.number (isHexadecimal c cs) c cs).1⟩,
        (Reading.number (isHexadecimal c cs) c cs).2) := rfl
  constructor
  · rintro ⟨herror, a, b, d, ds, rest, hreads⟩
    obtain rfl : c = d := (List.cons.inj hreads.text_eq_cons).1
    -- The same number is read in front of nothing, so it ends where the text does.
    have hagain := hreads.append herror (rfl : fits a b ⟨.number, c :: cs⟩ = true)
      (fun d (hd : [].head? = some d) => absurd hd (by simp))
    rw [List.tail_cons, List.append_nil] at hagain
    obtain ⟨hfirst, heq⟩ := hagain.number_eq rfl
    simp only [hnumber, Prod.mk.injEq, mk.injEq, List.cons.injEq, true_and] at heq
    exact ⟨hfirst, Prod.ext heq.1 heq.2⟩
  · rintro ⟨hfirst, hrest⟩
    have hreads := @Reads.number false false c cs hfirst
    rw [hnumber, hrest] at hreads
    exact ⟨by simp [tokenKind?], false, false, c, cs, [], hreads⟩

/-- A number with one more character that goes on with it is a number. -/
theorem Legible.number_concat {cs : List Char} {d : Char} (h : Legible ⟨.number, cs⟩)
    (hd : absorbs ⟨.number, cs⟩ d = true) : Legible ⟨.number, cs ++ [d]⟩ := by
  obtain ⟨c, ds, rfl⟩ := List.exists_cons_of_ne_nil h.text_ne_nil
  obtain ⟨hfirst, hchain⟩ := legible_number_iff.mp h
  have hcontinues : Reading.continuesNumber (isHexadecimal c ds) (ds.getLastD c) d = true := hd
  rw [List.cons_append, legible_number_iff]
  cases ds with
  | nil =>
    refine ⟨Or.inl (hfirst.resolve_right (by simp)), List.isChain_cons_cons.mpr ⟨?_, .singleton _⟩⟩
    -- The second character decides whether the number is hexadecimal.
    by_cases hmark : d = 'x' ∨ d = 'X'
    · rcases hmark with rfl | rfl <;> simp [Reading.continuesNumber]
    · have hdecimal : isHexadecimal c [d] = false := by
        simp only [not_or] at hmark
        simp [isHexadecimal, hmark]
      have hsingle : isHexadecimal c [] = false := by simp [isHexadecimal]
      rwa [List.nil_append, hdecimal, ← hsingle]
  | cons e es =>
    refine ⟨hfirst, ?_⟩
    rw [← List.cons_append, List.isChain_append]
    refine ⟨hchain, .singleton _, fun a ha b hb => ?_⟩
    obtain rfl : (e :: es).getLastD c = a := by
      rw [List.getLast?_cons, Option.mem_some_iff] at ha
      simpa using ha
    obtain rfl : d = b := by simpa using hb
    exact hcontinues

theorem absorbs_number_concat (cs : List Char) (previous d : Char) :
    absorbs ⟨.number, cs ++ [previous]⟩ d =
      Reading.continuesNumber
        (isHexadecimal ((cs ++ [previous]).headD previous) (cs ++ [previous]).tail) previous d := by
  cases cs with
  | nil => rfl
  | cons c cs => simp [absorbs]

/-- A number takes in characters that can stand in numbers and in names. -/
theorem Legible.number_append {cs ds : List Char} (h : Legible ⟨.number, cs⟩)
    (hds : ∀ d ∈ ds, continuesBoth d = true) : Legible ⟨.number, cs ++ ds⟩ := by
  induction ds generalizing cs with
  | nil => rwa [List.append_nil]
  | cons d ds ih =>
    obtain ⟨c, es, rfl⟩ := List.exists_cons_of_ne_nil h.text_ne_nil
    have hd : absorbs ⟨.number, c :: es⟩ d = true :=
      continuesNumber_of_continuesBoth (hds d List.mem_cons_self)
    have hnext := ih (h.number_concat hd) fun e he => hds e (List.mem_cons_of_mem _ he)
    rwa [List.append_assoc] at hnext

/-- A number takes in the point behind it and, as far as it can, the name behind that. -/
theorem Legible.number_point {cs : List Char} (h : Legible ⟨.number, cs⟩) (w : Identifier) :
    Legible ⟨.number, cs ++ '.' :: w.taken⟩ := by
  obtain ⟨c, es, rfl⟩ := List.exists_cons_of_ne_nil h.text_ne_nil
  have hpoint : absorbs ⟨.number, c :: es⟩ '.' = true := by simp [absorbs, Reading.continuesNumber]
  have htaken : ∀ d ∈ w.taken, continuesBoth d = true := fun d hd => List.mem_takeWhile_imp hd
  have hnext := (h.number_concat hpoint).number_append htaken
  rwa [List.append_assoc] at hnext

end Piece

theorem Numeral.legible (n : Numeral) : Piece.Legible ⟨.number, n.text⟩ :=
  Piece.legible_number_iff.mpr ⟨n.begins, n.continues⟩

/-- What follows a number has no say in how it begins. -/
theorem Numeral.begins_append (n : Numeral) (rest : List Char) : n.first.isDigit = true ∨
    n.first = '.' ∧ (n.rest ++ rest).head?.any Char.isDigit = true := by
  refine n.begins.imp_right fun ⟨hpoint, hdigit⟩ => ⟨hpoint, ?_⟩
  cases hrest : n.rest with
  | nil => simp [hrest] at hdigit
  | cons => simpa [hrest] using hdigit

/-! ## Strings -/

theorem Quoted.IsBody.string_append {quote : Char} {body : List Char} (h : IsBody quote body)
    (hquote : quote ≠ '\n' ∧ quote ≠ '\\') (rest : List Char) :
    Reading.string quote (body ++ quote :: rest) = ⟨body ++ [quote], rest, true⟩ := by
  induction h with
  | nil => simp [Reading.string_cons, hquote, Reading.complete]
  | escape c _ ih => simp [Reading.string_cons, Reading.behindEscape, ih, Reading.cons]
  | plain hescape hplain hline _ ih =>
    simp [Reading.string_cons, hescape, hplain, hline, ih, Reading.cons]

theorem Quoted.legible (s : Quoted) : Piece.Legible ⟨.string, s.text⟩ := by
  have hquote : s.quote ≠ '\n' ∧ s.quote ≠ '\\' := by
    rcases s.isQuote with h | h <;> rw [h] <;> decide
  have hstring := s.isBody.string_append hquote []
  have hreads := @Piece.Reads.string false false s.quote (s.body ++ [s.quote]) s.isQuote
    (by rw [hstring])
  rw [hstring] at hreads
  exact ⟨by simp [Piece.tokenKind?], false, false, _, _, _, hreads⟩

end ModuleBuild
