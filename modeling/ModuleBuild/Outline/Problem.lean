import ModuleBuild.Token

/-!
# Delimiter problems

Brackets must be closed in the order in which they were opened. The pass over the tokens keeps the
stack of open brackets. A closing bracket closes the innermost open one of its kind; brackets that
are still open inside it are reported as missing in front of it, the innermost first. A closing
bracket without an open one of its kind is reported and ignored. What is open at the end is reported
there.
-/

namespace ModuleBuild

/-- A kind of bracket. -/
inductive Bracket where
  /-- `(` and `)` -/
  | round
  /-- `[` and `]` -/
  | square
  /-- Braces. -/
  | curly
  deriving DecidableEq, Repr

namespace Bracket

/-- The opening bracket. -/
def opener : Bracket → Char
  | round => '('
  | square => '['
  | curly => '{'

/-- The closing bracket. -/
def closer : Bracket → Char
  | round => ')'
  | square => ']'
  | curly => '}'

/-- The kind that a character opens. -/
def ofOpener? (c : Char) : Option Bracket :=
  if c = '(' then some round else if c = '[' then some square
  else if c = '{' then some curly else none

/-- The kind that a character closes. -/
def ofCloser? (c : Char) : Option Bracket :=
  if c = ')' then some round else if c = ']' then some square
  else if c = '}' then some curly else none

end Bracket

/-- The bracket that a token opens. -/
def Token.opens? (t : Token) : Option Bracket := t.punctChar?.bind Bracket.ofOpener?

/-- The bracket that a token closes. -/
def Token.closes? (t : Token) : Option Bracket := t.punctChar?.bind Bracket.ofCloser?

/-- A problem in the tokens of a file, not yet tied to the file. -/
structure Problem where
  /-- Where the problem is. -/
  span : Span
  /-- The number of the diagnostic. -/
  code : Nat
  /-- The wording. -/
  message : String
  deriving DecidableEq, Repr

namespace Problem

/-- A closing bracket is missing at `span`. -/
def missing (span : Span) (b : Bracket) : Problem :=
  ⟨span, 1005, String.ofList ['\'', b.closer, '\''] ++ " expected."⟩

/-- The closing bracket at `span` has no opening one. -/
def stray (span : Span) : Problem := ⟨span, 1128, "Declaration or statement expected."⟩

/-- The problem that an error token stands for. An error without a number counts as an invalid
character. -/
def ofError? (t : Token) : Option Problem :=
  if t.kind = .error then some ⟨t.span, t.code.getD 1127, t.text⟩ else none

/-- The delimiter problems of the tokens, when the brackets `stack` are open before them, innermost
first, and the text ends at `atEnd`. -/
def ofDelimiters (atEnd : Span) : (stack : List Bracket) → List Token → List Problem
  | stack, [] => stack.map (missing atEnd)
  | stack, t :: ts =>
    match t.opens?, t.closes? with
    | some b, _ => ofDelimiters atEnd (b :: stack) ts
    | none, none => ofDelimiters atEnd stack ts
    | none, some b =>
      match stack.dropWhile (· != b) with
      | [] => stray t.span :: ofDelimiters atEnd stack ts
      | _ :: outer =>
        (stack.takeWhile (· != b)).map (missing t.span) ++ ofDelimiters atEnd outer ts

end Problem

end ModuleBuild
