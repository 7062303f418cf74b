import ModuleBuild.Token.Piece

/-!
# Lexical context

What the tokens read so far say about the text that follows: whether a slash begins a regular
expression or divides, and whether a closing brace ends a block or a template's substitution.

A slash divides behind an operand and begins a regular expression elsewhere. Behind `)` it depends
on the word before the matching `(`: behind the head of an `if`, `while`, `for` or `with` comes a
statement, which may begin with a regular expression.

Blanks, comments and errors change nothing, so an error never changes how the text behind it is
read. The one exception cannot be seen: an unterminated template takes its substitution with it, but
it also takes the rest of the text.
-/

namespace ModuleBuild

/-- What the tokens so far say about the following text. -/
structure Context where
  /-- Whether a slash begins a regular expression here. -/
  slashOpensRegex : Bool := true
  /-- Whether the last token is a word whose parenthesised head a statement follows. -/
  afterHeadWord : Bool := false
  /-- For each open parenthesis, innermost first, whether it is such a head. -/
  heads : List Bool := []
  /-- The number of open braces; a stray closing brace does not make it negative. -/
  braceDepth : Nat := 0
  /-- For each open substitution, innermost first, the number of braces open where it began. -/
  substitutions : List Nat := []
  deriving DecidableEq, Repr, Inhabited

namespace Context

/-- The words behind which an expression comes, so that a slash begins a regular expression. -/
def operandWords : List String :=
  ["return", "typeof", "case", "do", "else", "in", "instanceof", "new", "delete", "void", "throw",
    "yield", "await", "of"]

/-- The words whose parenthesised head a statement follows. -/
def headWords : List String := ["if", "while", "for", "with"]

/-- Whether a closing brace ends a substitution here: all braces opened in it are closed. -/
def braceResumesTemplate (k : Context) : Bool := k.substitutions.head? = some k.braceDepth

/-- Reads the piece that stands here at the front of `c :: cs`. -/
def read (k : Context) (c : Char) (cs : List Char) : Piece × List Char :=
  Piece.read k.slashOpensRegex k.braceResumesTemplate c cs

/-- The context behind a punctuation character. -/
def afterPunct (k : Context) (text : List Char) : Context :=
  let k' := { k with slashOpensRegex := true, afterHeadWord := false }
  match text with
  | ['('] => { k' with heads := k.afterHeadWord :: k.heads }
  | [')'] => { k' with slashOpensRegex := k.heads.head?.getD false, heads := k.heads.tail }
  | [']'] => { k' with slashOpensRegex := false }
  | ['{'] => { k' with braceDepth := k.braceDepth + 1 }
  | ['}'] => { k' with braceDepth := k.braceDepth - 1 }
  | _ => k'

/-- The context behind a piece. -/
def after (k : Context) (p : Piece) : Context :=
  let closed := if p.resumesTemplate then k.substitutions.tail else k.substitutions
  match p.kind with
  | .blank | .lineComment | .blockComment => k
  | .fault _ => { k with substitutions := closed }
  | .punct => k.afterPunct p.text
  | .identifier =>
    { k with
      slashOpensRegex := operandWords.contains (String.ofList p.text)
      afterHeadWord := headWords.contains (String.ofList p.text) }
  | .template =>
    { k with
      slashOpensRegex := p.opensSubstitution
      afterHeadWord := false
      substitutions := if p.opensSubstitution then k.braceDepth :: closed else closed }
  | .number | .string | .regex => { k with slashOpensRegex := false, afterHeadWord := false }

/-- Blanks and comments leave the context as it was. -/
theorem after_of_tokenKind?_eq_none {k : Context} {p : Piece} (h : p.tokenKind? = none) :
    k.after p = k := by
  obtain ⟨kind, text⟩ := p
  cases kind <;> simp_all [after, Piece.tokenKind?]

end Context

end ModuleBuild
