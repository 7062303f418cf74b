import ModuleBuild.Outline.Problem
import ModuleBuild.Outline.Statement

/-!
# Outlines

The outline of a file is what can be seen in its tokens without parsing it: its top-level statements
and its problems. The problems are the errors of the lexer followed by the delimiter problems, put
into the order of the places where they begin; problems that begin at one place keep their order.
-/

namespace ModuleBuild

/-- The statements and problems of a file. -/
structure Outline where
  /-- The top-level statements in order. -/
  statements : List Statement
  /-- The problems in order of their places. -/
  problems : List Problem
  deriving DecidableEq, Repr

namespace Outline

/-- The tokens of the program. -/
def significant (ts : List Token) : List Token := ts.filter Token.isSignificant

/-- The span at the end of the text, which is where the last token stands. -/
def endSpan (ts : List Token) : Span := (ts.getLast?.map Token.span).getD {}

/-- All problems, those of the lexer first. -/
def problemsOf (ts : List Token) : List Problem :=
  ts.filterMap Problem.ofError? ++ Problem.ofDelimiters (endSpan ts) [] (significant ts)

/-- The outline of a file with these tokens. -/
def ofTokens (ts : List Token) : Outline where
  statements := Statement.ofTokens (significant ts)
  problems := (problemsOf ts).mergeSort (fun p q => p.span.start ≤ q.span.start)

end Outline

end ModuleBuild
