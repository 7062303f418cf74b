import ModuleBuild.Source.Span

/-!
# Tokens

A token is a classified stretch of source text. Keywords are not a class of their own: they are
identifiers that later stages compare by their text. A token of kind `error` stands where the text
could not be read; it carries a message instead of its text, and the number of the diagnostic.
-/

namespace ModuleBuild

/-- What a token is. -/
inductive Token.Kind where
  /-- A name or keyword, a leading `#` included. -/
  | identifier
  /-- A number in any notation. -/
  | number
  /-- A quoted string with its quotes. -/
  | string
  /-- One stretch of a template literal, up to its end or to the next `${`. -/
  | template
  /-- A regular expression with its flags. -/
  | regex
  /-- One punctuation character. -/
  | punct
  /-- The end of the text. -/
  | endOfText
  /-- Text that is not a token. -/
  | error
  deriving DecidableEq, Repr, Inhabited

/-- A token and the place where it stands. -/
structure Token where
  /-- The class of the token. -/
  kind : Token.Kind
  /-- The bytes it covers. -/
  span : Span
  /-- Its source text; for an error, the message. -/
  text : String
  /-- The diagnostic number of an error. -/
  code : Option Nat := none
  deriving DecidableEq, Repr, Inhabited

namespace Token

/-- Whether this is punctuation that begins with `c`. -/
def isPunct (t : Token) (c : Char) : Bool :=
  t.kind = .punct && t.text.toList.head? = some c

/-- Whether this is the word `word`. -/
def isWord (t : Token) (word : String) : Bool :=
  t.kind = .identifier && t.text = word

/-- The character that a punctuation token begins with. -/
def punctChar? (t : Token) : Option Char :=
  if t.kind = .punct then t.text.toList.head? else none

/-- Whether this is a token of the program, neither an error nor the end. -/
def isSignificant (t : Token) : Bool :=
  t.kind != .error && t.kind != .endOfText

theorem isPunct_iff {t : Token} {c : Char} : t.isPunct c = true ↔ t.punctChar? = some c := by
  by_cases h : t.kind = .punct <;> simp [isPunct, punctChar?, h]

end Token

end ModuleBuild
