/-!
# Lexical errors

The ways in which source text fails to be a token, with the number and the wording under which each
is reported.
-/

namespace ModuleBuild

/-- Why a stretch of text is not a token. -/
inductive LexicalError where
  /-- A string that the line or the text ends. -/
  | unterminatedString
  /-- A block comment that the text ends. -/
  | unterminatedComment
  /-- A character that begins no token. -/
  | invalidCharacter
  /-- A template that the text ends. -/
  | unterminatedTemplate
  /-- A regular expression that the line or the text ends. -/
  | unterminatedRegex
  deriving DecidableEq, Repr

namespace LexicalError

/-- The number of the diagnostic. -/
def code : LexicalError → Nat
  | unterminatedString => 1002
  | unterminatedComment => 1010
  | invalidCharacter => 1127
  | unterminatedTemplate => 1160
  | unterminatedRegex => 1161

/-- The wording of the diagnostic. -/
def message : LexicalError → String
  | unterminatedString => "Unterminated string literal."
  | unterminatedComment => "'*/' expected."
  | invalidCharacter => "Invalid character."
  | unterminatedTemplate => "Unterminated template literal."
  | unterminatedRegex => "Unterminated regular expression literal."

end LexicalError

end ModuleBuild
