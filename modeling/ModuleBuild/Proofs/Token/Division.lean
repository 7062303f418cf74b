import ModuleBuild.Proofs.Token.Contents
import ModuleBuild.Proofs.Token.Literals

/-!
# Division

A slash behind an operand divides, and a slash in front of one begins a regular expression. The
lexer tells them apart by the last token and by the word in front of the last parenthesis. That is
not enough where an operand ends as something else would: with a mark that can also stand in front
of an operand, or with the name of a member that is a keyword elsewhere.

`Expr` has the expressions in question, and `Expr.IsClear` says of one that the lexer finds all its
divisions. What is read of an expression depends on what follows only if it ends with a number,
since a number takes in the name of a member and a sign; `Expr.ending` is that number, and the
induction carries it along in front of the rest of the text.

Main statements: `Expr.clear_append_iff`, the induction over an expression in front of other text;
and `Expr.lexes_clear_iff`, by which a whole expression has neither regular expressions nor errors
exactly if it is clear.
-/

namespace ModuleBuild

/-! ## Expressions -/

/-- A mark behind an operand that leaves an operand. -/
inductive Suffix where
  /-- The mark `++`. -/
  | increment
  /-- The mark `--`. -/
  | decrement
  /-- The mark `!`, by which a value is said not to be null. -/
  | nonNull
  deriving DecidableEq, Repr

def Suffix.text : Suffix → List Char
  | .increment => ['+', '+']
  | .decrement => ['-', '-']
  | .nonNull => ['!']

mutual

/-- An expression of operands and divisions. -/
inductive Expr where
  | name (w : Identifier)
  | number (n : Numeral)
  | string (s : Quoted)
  | paren (e : Expr)
  | call (callee : Expr) (args : Args)
  | element (e index : Expr)
  | member (e : Expr) (w : Identifier)
  | suffix (e : Expr) (mark : Suffix)
  | divide (a b : Expr)

/-- The arguments of a call. -/
inductive Args where
  | nil
  | cons (e : Expr) (rest : Args)

end

/-- What separates an argument from the others behind it. -/
def Args.separator : Args → List Char
  | .nil => []
  | .cons _ _ => [',', ' ']

mutual

/-- An expression as it is printed, with a space on both sides of each slash. -/
def Expr.text : Expr → List Char
  | .name w => w.text
  | .number n => n.text
  | .string s => s.text
  | .paren e => '(' :: (e.text ++ [')'])
  | .call e args => e.text ++ '(' :: (args.text ++ [')'])
  | .element e index => e.text ++ '[' :: (index.text ++ [']'])
  | .member e w => e.text ++ '.' :: w.text
  | .suffix e mark => e.text ++ mark.text
  | .divide a b => a.text ++ ' ' :: '/' :: ' ' :: b.text

/-- The arguments of a call as they are printed between the parentheses. -/
def Args.text : Args → List Char
  | .nil => []
  | .cons e rest => e.text ++ (rest.separator ++ rest.text)

end

/-! ## What an expression leaves behind -/

/-- The number with which the text of an expression ends. It takes in the name of a member. -/
def Expr.ending : Expr → List Char
  | .number n => n.text
  | .member e w => if e.ending = [] ∨ w.left ≠ [] then [] else e.ending ++ '.' :: w.text
  | .divide _ b => b.ending
  | _ => []

/-- Whether an expression ends with a word that could stand before the head of a statement. -/
def Expr.endsInHeadWord : Expr → Bool
  | .name w => Context.headWords.contains (String.ofList w.text)
  | .member e w => e.ending = [] && Context.headWords.contains (String.ofList w.text)
  | .divide _ b => b.endsInHeadWord
  | _ => false

/-- Whether a slash behind an expression is taken for the beginning of a regular expression. -/
def Expr.opensRegex : Expr → Bool
  | .name w => Context.operandWords.contains (String.ofList w.text)
  | .member e w => e.ending = [] && Context.operandWords.contains (String.ofList w.text)
  | .call e _ => e.endsInHeadWord
  | .suffix _ _ => true
  | .divide _ b => b.opensRegex
  | _ => false

/-- Whether what a number in front of a name leaves of it is nothing or a name. -/
def Identifier.leavesName (w : Identifier) : Bool := w.left.head?.all Piece.startsName

mutual

/-- Each slash stands where a slash divides, and what a number leaves of the name of a member can be
read. -/
def Expr.IsClear : Expr → Prop
  | .name _ | .number _ | .string _ => True
  | .paren e => e.IsClear
  | .call e args => e.IsClear ∧ args.IsClear
  | .element e index => e.IsClear ∧ index.IsClear
  | .member e w => e.IsClear ∧ (e.ending ≠ [] → w.leavesName = true)
  | .suffix e _ => e.IsClear
  | .divide a b => a.IsClear ∧ a.opensRegex = false ∧ b.IsClear

/-- All arguments are clear. -/
def Args.IsClear : Args → Prop
  | .nil => True
  | .cons e rest => e.IsClear ∧ rest.IsClear

end

mutual

instance Expr.decidableIsClear : (e : Expr) → Decidable e.IsClear
  | .name _ | .number _ | .string _ => inferInstanceAs (Decidable True)
  | .paren e | .suffix e _ => e.decidableIsClear
  | .call e args =>
    have := e.decidableIsClear
    have := args.decidableIsClear
    inferInstanceAs (Decidable (_ ∧ _))
  | .element e index =>
    have := e.decidableIsClear
    have := index.decidableIsClear
    inferInstanceAs (Decidable (_ ∧ _))
  | .member e _ =>
    have := e.decidableIsClear
    inferInstanceAs (Decidable (_ ∧ (_ → _)))
  | .divide a b =>
    have := a.decidableIsClear
    have := b.decidableIsClear
    inferInstanceAs (Decidable (_ ∧ _ ∧ _))

instance Args.decidableIsClear : (args : Args) → Decidable args.IsClear
  | .nil => inferInstanceAs (Decidable True)
  | .cons e rest =>
    have := e.decidableIsClear
    have := rest.decidableIsClear
    inferInstanceAs (Decidable (_ ∧ _))

end

/-! ## Texts without regular expressions and errors -/

namespace Piece

/-- Where a slash does not divide, what it begins is a regular expression or an error. -/
theorem Reads.regex_or_error {b : Bool} {cs rest : List Char} {p : Piece}
    (h : Reads true b '/' (' ' :: cs) p rest) :
    p.tokenKind? = some .regex ∨ p.tokenKind? = some .error := by
  cases h with
  | regex => exact Or.inl rfl
  | openRegex | openString | openTemplate | invalid => exact Or.inr rfl
  | blank hc => exact absurd hc (by decide)
  | string hc => exact absurd hc (by decide)
  | template hc => exact absurd hc (by simp)
  | number hc => exact absurd hc (by simp)
  | name hc => exact absurd hc (by decide)
  | punct hc hname hquote hslash => exact absurd (hslash rfl).1 (by simp)

/-- A number of another script begins no token. -/
theorem Reads.error_of_isNumeric {a b : Bool} {c : Char} {cs rest : List Char} {p : Piece}
    (h : Reads a b c cs p rest) (hc : Text.isNumeric c = true) (hdigit : c.isDigit = false)
    (hname : startsName c = false) : p.tokenKind? = some .error := by
  have hpunct : isAsciiPunctuation c = false := isAsciiPunctuation_eq_false_of_isNumeric hc
  cases h with
  | openComment | openString | openTemplate | openRegex | invalid => rfl
  | blank hblank =>
    rw [Text.isNumeric_eq_false_of_isBlank hblank] at hc
    cases hc
  | lineComment | blockComment | regex => exact absurd hpunct (by decide)
  | string hquote => rcases hquote with rfl | rfl <;> exact absurd hpunct (by decide)
  | template hquote => rcases hquote with rfl | ⟨rfl, -⟩ <;> exact absurd hpunct (by decide)
  | number hfirst =>
    rcases hfirst with hfirst | ⟨rfl, -⟩
    · rw [hdigit] at hfirst
      cases hfirst
    · exact absurd hpunct (by decide)
  | name hfirst =>
    rw [hname] at hfirst
    cases hfirst
  | punct hmark =>
    rw [hpunct] at hmark
    cases hmark

end Piece

namespace Context

/-- Nothing in a text is read as a regular expression, and everything can be read. -/
def Clear (k : Context) (cs : List Char) : Prop :=
  ∀ p ∈ k.pieces cs, p.tokenKind? ≠ some .regex ∧ p.tokenKind? ≠ some .error

variable {k : Context} {rest : List Char}

theorem clear_nil : k.Clear [] := by simp [Clear]

theorem clear_text_append_iff {p : Piece} (hp : p.Legible) (hregex : p.kind ≠ .regex)
    (hadmits : k.admits p = true) (hrest : ∀ d, rest.head? = some d → p.absorbs d = false) :
    k.Clear (p.text ++ rest) ↔ (k.after p).Clear rest := by
  have hkind : p.tokenKind? ≠ some .regex := by
    obtain ⟨kind, text⟩ := p
    cases kind <;> simp_all [Piece.tokenKind?]
  simp only [Clear, pieces_text_append hp hadmits hrest, List.forall_mem_cons]
  exact ⟨fun h => h.2, fun h => ⟨⟨hkind, hp.1⟩, h⟩⟩

/-! ### Marks -/

/-- Marks that are read alone, whatever follows them. -/
def plainMarks : List Char := ['(', ')', '[', ']', ',', '+', '-', '!']

theorem legible_punct {c : Char} (hc : c ∈ plainMarks ++ ['.', '/']) :
    Piece.Legible ⟨.punct, [c]⟩ := by
  have hread : ∀ d ∈ plainMarks ++ ['.', '/'], Piece.read false false d [] = (⟨.punct, [d]⟩, []) :=
    List.all_iff_forall_prop.mp (by decide)
  have hreads := Piece.reads_read false false c []
  rw [hread c hc] at hreads
  exact ⟨by simp [Piece.tokenKind?], false, false, c, [], [], hreads⟩

/-- A mark that begins and continues nothing is read as itself. -/
theorem clear_mark_iff {c : Char} (hc : c ∈ plainMarks) :
    k.Clear (c :: rest) ↔ (k.afterPunct [c]).Clear rest := by
  have hlegible : Piece.Legible ⟨.punct, [c]⟩ := legible_punct (List.mem_append_left _ hc)
  have hfits : ∀ d ∈ plainMarks, ∀ a b, Piece.fits a b ⟨.punct, [d]⟩ = true :=
    List.all_iff_forall_prop.mp (by decide)
  have hplain : c ≠ '.' ∧ c ≠ '/' := by
    constructor
    · rintro rfl
      exact absurd hc (by decide)
    · rintro rfl
      exact absurd hc (by decide)
  exact clear_text_append_iff hlegible (by simp) (hfits c hc _ _)
    fun d _ => by simp [Piece.absorbs, hplain]

theorem clear_space_iff : k.Clear (' ' :: rest) ↔ k.Clear rest := by
  have hlegible : Piece.Legible ⟨.blank, [' ']⟩ :=
    ⟨by simp [Piece.tokenKind?], false, false, ' ', [], [], .blank (by decide)⟩
  exact clear_text_append_iff hlegible (by simp) rfl fun _ _ => rfl

/-- Between spaces a slash divides, or nothing behind it can be relied on. -/
theorem clear_slash_iff :
    k.Clear ('/' :: ' ' :: rest) ↔ k.slashOpensRegex = false ∧ (k.afterPunct ['/']).Clear rest := by
  cases hslash : k.slashOpensRegex with
  | false =>
    have hdivides := @clear_text_append_iff k (' ' :: rest) ⟨.punct, ['/']⟩
      (legible_punct (by decide)) (by simp) (by simp [admits, Piece.fits, hslash])
      (by simp [Piece.absorbs])
    rw [List.singleton_append, clear_space_iff] at hdivides
    simp only [true_and]
    exact hdivides
  | true =>
    have hregex : ¬k.Clear ('/' :: ' ' :: rest) := by
      intro hclear
      rw [Clear, pieces_cons, List.forall_mem_cons] at hclear
      obtain ⟨⟨hkind, herror⟩, -⟩ := hclear
      have hreads := k.reads_read '/' (' ' :: rest)
      rw [hslash] at hreads
      exact hreads.regex_or_error.elim hkind herror
    simp [hregex]

/-! ### Operands -/

/-- The context behind an operand of which the rest of the text has to know no more than this. -/
def behindOperand (k : Context) (slashOpensRegex afterHeadWord : Bool) : Context :=
  { k with slashOpensRegex, afterHeadWord }

@[simp] theorem behindOperand_behindOperand (k : Context) (a b c d : Bool) :
    (k.behindOperand a b).behindOperand c d = k.behindOperand c d := rfl

theorem clear_word_iff {w : List Char} (hw : Piece.Legible ⟨.identifier, w⟩)
    (hrest : ∀ d, rest.head? = some d → Piece.continuesName d = false) :
    k.Clear (w ++ rest) ↔
      (k.behindOperand (operandWords.contains (String.ofList w))
        (headWords.contains (String.ofList w))).Clear rest :=
  clear_text_append_iff hw (by simp) (by cases w <;> rfl)
    fun d hd => (Piece.absorbs_identifier w d).trans (hrest d hd)

theorem clear_number_iff {n : List Char} (hn : Piece.Legible ⟨.number, n⟩)
    (hrest : ∀ d, rest.head? = some d → Piece.absorbs ⟨.number, n⟩ d = false) :
    k.Clear (n ++ rest) ↔ (k.behindOperand false false).Clear rest :=
  clear_text_append_iff hn (by simp) (by cases n <;> rfl) hrest

theorem clear_quoted_iff (s : Quoted) :
    k.Clear (s.text ++ rest) ↔ (k.behindOperand false false).Clear rest :=
  clear_text_append_iff s.legible (by simp) rfl fun _ _ => rfl

/-- How a number is read does not depend on what a slash would mean in front of it. -/
theorem clear_number_congr {c : Char} {cs : List Char}
    (hfirst : c.isDigit = true ∨ c = '.' ∧ cs.head?.any Char.isDigit = true) (a b : Bool) :
    (k.behindOperand a b).Clear (c :: cs) ↔ k.Clear (c :: cs) := by
  have hread : ∀ k' : Context, k'.read c cs = (⟨.number, (Piece.number c cs).1.text⟩,
      (Piece.number c cs).2) := fun k' =>
    (Piece.Reads.number hfirst).read_eq (by simp [Piece.tokenKind?])
  rw [Clear, Clear, pieces_cons, pieces_cons, hread, hread]
  rfl

/-- A character that begins no token is an error. -/
theorem not_clear_of_isNumeric {c : Char} {cs : List Char} (hc : Text.isNumeric c = true)
    (hdigit : c.isDigit = false) (hname : Piece.startsName c = false) : ¬k.Clear (c :: cs) := by
  intro hclear
  rw [Clear, pieces_cons, List.forall_mem_cons] at hclear
  exact hclear.1.2 ((k.reads_read c cs).error_of_isNumeric hc hdigit hname)

/-- The point in front of the name of a member, where there is no number before it. -/
theorem clear_member_iff (w : Identifier)
    (hrest : ∀ d, rest.head? = some d → Piece.continuesName d = false) :
    k.Clear ('.' :: (w.text ++ rest)) ↔
      (k.behindOperand (operandWords.contains (String.ofList w.text))
        (headWords.contains (String.ofList w.text))).Clear rest := by
  have hdigit : w.first.isDigit = false := by
    by_contra hdigit
    have hname := Piece.startsName_eq_false_of_isDigit (by simpa using hdigit)
    rw [w.begins] at hname
    cases hname
  have hpoint :
      k.Clear ('.' :: (w.text ++ rest)) ↔ (k.afterPunct ['.']).Clear (w.text ++ rest) := by
    refine clear_text_append_iff (legible_punct (by decide)) (by simp) rfl fun d hd => ?_
    obtain rfl : w.first = d := Option.some.inj hd
    exact hdigit
  rw [hpoint, clear_word_iff w.legible hrest]
  rfl

end Context

/-! ## Behind an expression -/

namespace Expr

/-- The number at the end of an expression is one, and behind it a slash divides. -/
theorem ending_cases (e : Expr) :
    e.ending = [] ∨ Piece.Legible ⟨.number, e.ending⟩ ∧ e.opensRegex = false ∧
      e.endsInHeadWord = false := by
  match e with
  | .number n => exact Or.inr ⟨n.legible, rfl, rfl⟩
  | .member e w =>
    by_cases hnone : e.ending = [] ∨ w.left ≠ []
    · exact Or.inl (by simp [ending, hnone])
    · right
      obtain ⟨hending, hleft⟩ : e.ending ≠ [] ∧ w.left = [] := by simpa using hnone
      have hnumber := (e.ending_cases.resolve_left hending).1.number_point w
      have hall : w.taken = w.text := by simpa [hleft] using w.taken_append_left
      rw [hall] at hnumber
      rw [ending, if_neg hnone]
      exact ⟨hnumber, by simp [opensRegex, hending], by simp [endsInHeadWord, hending]⟩
  | .divide _ b => exact b.ending_cases
  | .name _ | .string _ | .paren _ | .call _ _ | .element _ _ | .suffix _ _ => exact Or.inl rfl

end Expr

namespace Context

/-- The context behind an expression, in which the number at its end may still be read. -/
def behind (k : Context) (e : Expr) : Context := k.behindOperand e.opensRegex e.endsInHeadWord

variable {k : Context} {rest : List Char}

/-- What does not go on with the number at the end of an expression is read behind it. -/
theorem clear_ending_iff (e : Expr)
    (hrest : ∀ d, rest.head? = some d → Piece.absorbs ⟨.number, e.ending⟩ d = false) :
    (k.behind e).Clear (e.ending ++ rest) ↔ (k.behind e).Clear rest := by
  rcases e.ending_cases with hnone | ⟨hnumber, hslash, hhead⟩
  · rw [hnone, List.nil_append]
  · rw [clear_number_iff hnumber hrest]
    simp only [behind, hslash, hhead, behindOperand_behindOperand]

theorem clear_ending_mark_iff (e : Expr) {c : Char}
    (hc : c ∈ ['(', ')', '[', ']', ',', '!', ' ']) :
    (k.behind e).Clear (e.ending ++ c :: rest) ↔ (k.behind e).Clear (c :: rest) := by
  have hclass : ∀ d ∈ ['(', ')', '[', ']', ',', '!', ' '],
      Piece.continuesBoth d = false ∧ d ∉ ['.', '+', '-'] :=
    List.all_iff_forall_prop.mp (by decide)
  refine clear_ending_iff e fun d hd => ?_
  obtain rfl : c = d := Option.some.inj hd
  exact Piece.absorbs_number_eq_false (hclass c hc).1 (hclass c hc).2

/-- A bracket, a comma or a `!` behind an expression is read as itself. -/
theorem clear_behind_mark_iff (e : Expr) {c : Char} (hc : c ∈ ['(', ')', '[', ']', ',', '!']) :
    (k.behind e).Clear (e.ending ++ c :: rest) ↔ ((k.behind e).afterPunct [c]).Clear rest := by
  have hmarks : ['(', ')', '[', ']', ',', '!'] ⊆ plainMarks := by decide
  rw [clear_ending_mark_iff e (List.mem_append_left [' '] hc), clear_mark_iff (hmarks hc)]

/-- A sign behind a number may belong to it, but a second one does not. -/
theorem clear_ending_signs_iff (e : Expr) {c : Char} (hc : c = '+' ∨ c = '-') :
    (k.behind e).Clear (e.ending ++ c :: c :: rest) ↔ (k.behindOperand true false).Clear rest := by
  have hmark : c ∈ plainMarks := by rcases hc with rfl | rfl <;> decide
  have hpunct : ∀ k' : Context, k'.afterPunct [c] = k'.behindOperand true false := by
    rcases hc with rfl | rfl <;> exact fun _ => rfl
  cases hsign : Piece.absorbs ⟨.number, e.ending⟩ c with
  | false =>
    rw [clear_ending_iff e (by simpa using hsign), clear_mark_iff hmark, clear_mark_iff hmark,
      hpunct, hpunct]
    rfl
  | true =>
    have hnumber : Piece.Legible ⟨.number, e.ending ++ [c]⟩ := by
      rcases e.ending_cases with hnone | ⟨hnumber, -⟩
      · rw [hnone] at hsign
        cases hsign
      · exact hnumber.number_concat hsign
    have hsecond : Piece.absorbs ⟨.number, e.ending ++ [c]⟩ c = false := by
      rw [Piece.absorbs_number_concat]
      rcases hc with rfl | rfl <;> simp [Reading.continuesNumber]
    rw [← List.singleton_append, ← List.append_assoc,
      clear_number_iff hnumber (by simpa using hsecond), clear_mark_iff hmark, hpunct]
    rfl

theorem clear_suffix_iff (e : Expr) (mark : Suffix) :
    (k.behind e).Clear (e.ending ++ (mark.text ++ rest)) ↔
      (k.behind (.suffix e mark)).Clear rest := by
  cases mark with
  | increment => exact clear_ending_signs_iff e (Or.inl rfl)
  | decrement => exact clear_ending_signs_iff e (Or.inr rfl)
  | nonNull => exact clear_behind_mark_iff e (by decide)

/-- A word of ASCII letters is not what a number leaves of a name. -/
theorem contains_eq_false {words : List String}
    (hwords : ∀ v ∈ words, v.toList.head?.all Piece.continuesBoth = true) {c : Char}
    {cs : List Char} (hc : Piece.continuesBoth c = false) :
    words.contains (String.ofList (c :: cs)) = false := by
  by_contra hmem
  have hmem' : String.ofList (c :: cs) ∈ words := List.contains_iff_mem.mp (by simpa using hmem)
  have hboth := hwords _ hmem'
  rw [String.toList_ofList, List.head?_cons, Option.all_some] at hboth
  rw [hc] at hboth
  cases hboth

/-- What a number leaves of a name is a word that is no keyword, or it cannot be read. -/
theorem clear_left_iff {w : Identifier} (hleft : w.left ≠ [])
    (hrest : ∀ d, rest.head? = some d → Piece.continuesName d = false) :
    k.Clear (w.left ++ rest) ↔ w.leavesName = true ∧ (k.behindOperand false false).Clear rest := by
  obtain ⟨c, cs, hcs⟩ := List.exists_cons_of_ne_nil hleft
  have hboth : Piece.continuesBoth c = false := w.continuesBoth_head?_left (by rw [hcs]; rfl)
  have hleaves : w.leavesName = Piece.startsName c := by rw [Identifier.leavesName, hcs]; rfl
  rw [hleaves, hcs]
  cases hname : Piece.startsName c with
  | true =>
    have hword := Piece.legible_identifier hname (w.continuesName_of_left_eq hcs)
    rw [clear_word_iff hword hrest, contains_eq_false (by decide) hboth,
      contains_eq_false (by decide) hboth, eq_self, true_and]
  | false =>
    have hnumeric := w.isNumeric_of_left_eq hcs hname
    have herror : ¬k.Clear (c :: cs ++ rest) :=
      not_clear_of_isNumeric hnumeric (Piece.isDigit_eq_false_of_continuesBoth hboth) hname
    exact iff_of_false herror fun h => Bool.false_ne_true h.1

/-- The name of a member is taken in by the number before it as far as possible. -/
theorem clear_ending_member_iff (e : Expr) (w : Identifier)
    (hrest : ∀ d, rest.head? = some d → Piece.continuesName d = false) :
    (k.behind e).Clear (e.ending ++ '.' :: (w.text ++ rest)) ↔
      (e.ending ≠ [] → w.leavesName = true) ∧
        (k.behind (.member e w)).Clear (Expr.ending (.member e w) ++ rest) := by
  rcases e.ending_cases with hnone | ⟨hnumber, hslash, hhead⟩
  · rw [hnone, List.nil_append, clear_member_iff w hrest]
    simp [behind, Expr.ending, Expr.opensRegex, Expr.endsInHeadWord, hnone]
  · have hending : e.ending ≠ [] := hnumber.text_ne_nil
    have hbehind : k.behind (.member e w) = k.behindOperand false false := by
      simp [behind, Expr.opensRegex, Expr.endsInHeadWord, hending]
    rw [hbehind, behind, hslash, hhead]
    by_cases hleft : w.left = []
    · -- The whole name belongs to the number, with which the member then ends.
      simp [Identifier.leavesName, Expr.ending, hending, hleft]
    · have hsplit : e.ending ++ '.' :: (w.text ++ rest) =
          (e.ending ++ '.' :: w.taken) ++ (w.left ++ rest) := by
        rw [← w.taken_append_left]
        simp
      have hends : Expr.ending (.member e w) = [] := by simp [Expr.ending, hleft]
      rw [hsplit, clear_number_iff (hnumber.number_point w) (w.absorbs_left hleft),
        clear_left_iff hleft hrest, hends, List.nil_append]
      simp [hending]

end Context

/-- Behind a mark nothing goes on with a name. -/
theorem Piece.not_continuesName_cons {c : Char} (hc : continuesName c = false) {rest : List Char} :
    ∀ d, (c :: rest).head? = some d → continuesName d = false := by
  simpa using hc

theorem Suffix.not_continuesName (mark : Suffix) {rest : List Char} :
    ∀ d, (mark.text ++ rest).head? = some d → Piece.continuesName d = false := by
  cases mark <;> exact Piece.not_continuesName_cons (by decide)

mutual

/-- What is read of an expression in front of other text, and the context and the number that it
leaves. -/
theorem Expr.clear_append_iff {k : Context} {rest : List Char} (hk : k.afterHeadWord = false)
    (hrest : ∀ d, rest.head? = some d → Piece.continuesName d = false) : (e : Expr) →
    (k.Clear (e.text ++ rest) ↔ e.IsClear ∧ (k.behind e).Clear (e.ending ++ rest))
  | .name w => by
    rw [Expr.text, Context.clear_word_iff w.legible hrest, Expr.IsClear, true_and]
    rfl
  | .number n => by
    rw [Expr.text, Expr.IsClear, true_and]
    exact (Context.clear_number_congr (n.begins_append rest) false false).symm
  | .string s => by
    rw [Expr.text, Context.clear_quoted_iff, Expr.IsClear, true_and]
    rfl
  | .paren e => by
    have hbehind : ((k.afterPunct ['(']).behind e).afterPunct [')'] = k.behind (.paren e) := by
      simp [Context.afterPunct, Context.behind, Context.behindOperand, Expr.opensRegex,
        Expr.endsInHeadWord, hk]
    rw [Expr.text, List.cons_append, List.append_assoc, List.singleton_append,
      Context.clear_mark_iff (by decide),
      e.clear_append_iff rfl (Piece.not_continuesName_cons (by decide)),
      Context.clear_behind_mark_iff e (by decide), hbehind, Expr.IsClear]
    rfl
  | .call e args => by
    rw [Expr.text, List.append_assoc, List.cons_append, List.append_assoc, List.singleton_append,
      e.clear_append_iff hk (Piece.not_continuesName_cons (by decide)),
      Context.clear_behind_mark_iff e (by decide), args.clear_append_iff rfl, Expr.IsClear,
      and_assoc]
    rfl
  | .element e index => by
    rw [Expr.text, List.append_assoc, List.cons_append, List.append_assoc, List.singleton_append,
      e.clear_append_iff hk (Piece.not_continuesName_cons (by decide)),
      Context.clear_behind_mark_iff e (by decide),
      index.clear_append_iff rfl (Piece.not_continuesName_cons (by decide)),
      Context.clear_behind_mark_iff index (by decide), Expr.IsClear, and_assoc]
    rfl
  | .member e w => by
    rw [Expr.text, List.append_assoc, List.cons_append,
      e.clear_append_iff hk (Piece.not_continuesName_cons (by decide)),
      Context.clear_ending_member_iff e w hrest, Expr.IsClear, and_assoc]
  | .suffix e mark => by
    rw [Expr.text, List.append_assoc, e.clear_append_iff hk mark.not_continuesName,
      Context.clear_suffix_iff, Expr.IsClear]
    rfl
  | .divide a b => by
    rw [Expr.text, List.append_assoc, List.cons_append, List.cons_append, List.cons_append,
      a.clear_append_iff hk (Piece.not_continuesName_cons (by decide)),
      Context.clear_ending_mark_iff a (by decide), Context.clear_space_iff, Context.clear_slash_iff,
      b.clear_append_iff rfl hrest, Expr.IsClear, and_assoc, and_assoc]
    rfl

/-- What is read of arguments up to the parenthesis that closes them. -/
theorem Args.clear_append_iff {k : Context} {rest : List Char} (hk : k.afterHeadWord = false) :
    (args : Args) →
    (k.Clear (args.text ++ ')' :: rest) ↔ args.IsClear ∧ (k.afterPunct [')']).Clear rest)
  | .nil => by
    rw [Args.text, List.nil_append, Context.clear_mark_iff (by decide), Args.IsClear, true_and]
  | .cons e others => by
    rw [Args.text, List.append_assoc, List.append_assoc, Args.IsClear, and_assoc]
    cases others with
    | nil =>
      rw [Args.separator, List.nil_append, Args.text, List.nil_append,
        e.clear_append_iff hk (Piece.not_continuesName_cons (by decide)),
        Context.clear_behind_mark_iff e (by decide), Args.IsClear, true_and]
      rfl
    | cons f others =>
      rw [Args.separator, List.cons_append, List.singleton_append,
        e.clear_append_iff hk (Piece.not_continuesName_cons (by decide)),
        Context.clear_behind_mark_iff e (by decide), Context.clear_space_iff,
        Args.clear_append_iff rfl (.cons f others)]
      rfl

end

/-! ## The tokens of an expression -/

/-- The kinds of the tokens of a text are those of its pieces. -/
theorem Lexed.map_kind_tokens (text : String) :
    (Lexed.ofText text).tokens.map Token.kind =
      (Piece.ofText text).filterMap Piece.tokenKind? ++ [.endOfText] := by
  have hpiece : (fun p : Piece => p.content?.map Prod.fst) = Piece.tokenKind? := by
    funext ⟨kind, _⟩
    cases kind <;> rfl
  have hkind : Token.kind = Prod.fst ∘ Token.content := rfl
  rw [hkind, ← List.map_map, Lexed.map_content_tokens, List.map_append, List.map_filterMap, hpiece]
  rfl

/-- The tokens of a text show whether it is read without regular expressions and errors. -/
theorem Lexed.clear_iff (text : String) :
    (∀ t ∈ (Lexed.ofText text).tokens, t.kind ≠ .regex ∧ t.kind ≠ .error) ↔
      Context.Clear {} (Lexer.program text) := by
  let Plain (kind : Token.Kind) : Prop := kind ≠ .regex ∧ kind ≠ .error
  have hkinds : (∀ t ∈ (Lexed.ofText text).tokens, Plain t.kind) ↔
      ∀ kind ∈ (Lexed.ofText text).tokens.map Token.kind, Plain kind := List.forall_mem_map.symm
  rw [Lexed.map_kind_tokens, List.forall_mem_append, List.forall_mem_filterMap] at hkinds
  refine hkinds.trans ⟨fun h p hp => ?_, fun h => ⟨fun p hp kind hkind => ?_, by simp [Plain]⟩⟩
  · exact ⟨fun hregex => (h.1 p hp _ hregex).1 rfl, fun herror => (h.1 p hp _ herror).2 rfl⟩
  · obtain ⟨hregex, herror⟩ := h p hp
    exact ⟨fun hk => hregex (hk ▸ hkind), fun hk => herror (hk ▸ hkind)⟩

theorem Lexer.interpreter_isPrefixOf_eq_false {c : Char} {cs : List Char}
    (h : c = '#' → cs.head? ≠ some '!') : ['#', '!'].isPrefixOf (c :: cs) = false := by
  by_contra hprefix
  rw [Bool.not_eq_false, List.isPrefixOf_iff_prefix] at hprefix
  obtain ⟨ds, hds⟩ := hprefix
  obtain ⟨hfirst, hrest⟩ := List.cons.inj hds
  exact h hfirst.symm (by rw [← hrest]; rfl)

/-- No expression begins with the mark of a line that names an interpreter. -/
theorem Expr.interpreter_isPrefixOf_text (rest : List Char) : (e : Expr) →
    ['#', '!'].isPrefixOf (e.text ++ rest) = false
  | .name w => by
    refine Lexer.interpreter_isPrefixOf_eq_false fun hfirst hsecond => ?_
    obtain ⟨c, cs, hcs⟩ := List.exists_cons_of_ne_nil (w.hash_not_alone hfirst)
    have hcontinues := w.continues c (hcs ▸ List.mem_cons_self)
    rw [hcs] at hsecond
    rw [Option.some.inj hsecond] at hcontinues
    exact absurd hcontinues (by decide)
  | .number n => by
    refine Lexer.interpreter_isPrefixOf_eq_false fun hfirst => ?_
    have hbegins := n.begins
    rw [hfirst] at hbegins
    exact absurd hbegins (by simp)
  | .string s => by
    refine Lexer.interpreter_isPrefixOf_eq_false fun hfirst => ?_
    have hquote := s.isQuote
    rw [hfirst] at hquote
    exact absurd hquote (by decide)
  | .paren e => rfl
  | .call e _ | .element e _ | .member e _ | .suffix e _ | .divide e _ => by
    rw [Expr.text, List.append_assoc]
    exact e.interpreter_isPrefixOf_text _

theorem Expr.program_text (e : Expr) : Lexer.program (String.ofList e.text) = e.text := by
  have hnone := e.interpreter_isPrefixOf_text []
  rw [List.append_nil] at hnone
  rw [Lexer.program_eq_iff (String.toList_ofList.trans (List.nil_append _).symm),
    String.toList_ofList, Lexer.interpreterLine, hnone]
  rfl

/-- An expression is read without regular expressions and errors exactly if each of its slashes
stands where a slash divides, and each name behind a number can be read. -/
theorem Expr.lexes_clear_iff (e : Expr) :
    (∀ t ∈ (Lexed.ofText (String.ofList e.text)).tokens, t.kind ≠ .regex ∧ t.kind ≠ .error) ↔
      e.IsClear := by
  have happend : Context.Clear {} (e.text ++ []) ↔
      e.IsClear ∧ (Context.behind {} e).Clear (e.ending ++ []) := e.clear_append_iff rfl (by simp)
  rw [Context.clear_ending_iff e (by simp), List.append_nil,
    and_iff_left Context.clear_nil] at happend
  rw [Lexed.clear_iff, e.program_text, happend]

namespace Expr

/-- The operand `x`. -/
def x : Expr := .name ⟨'x', [], by decide, by simp, by simp⟩

/-- The number `2`. -/
def two : Expr := .number ⟨'2', [], by decide, by decide⟩

/-- Behind a parenthesis, a number and a name of its own a slash divides. -/
example : IsClear (.divide (.divide (.call x (.cons x .nil)) two) (.divide (.paren x) x)) := by
  decide

/-- The expression `x++ / 2` has a division, and the lexer finds an error in it. -/
theorem increment_hides_division :
    String.ofList (divide (.suffix x .increment) two).text = "x++ / 2" ∧
      ¬∀ t ∈ (Lexed.ofText (String.ofList (divide (.suffix x .increment) two).text)).tokens,
        t.kind ≠ .regex ∧ t.kind ≠ .error := by
  have htext : String.ofList (divide (.suffix x .increment) two).text = "x++ / 2" := by decide
  refine ⟨htext, ?_⟩
  rw [htext]
  decide +kernel

end Expr

end ModuleBuild
