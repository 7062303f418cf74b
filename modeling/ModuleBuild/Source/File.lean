import ModuleBuild.Diagnostic
import ModuleBuild.Outline
import ModuleBuild.Source.LineTable
import ModuleBuild.Token.Lexer

/-!
# Source files

A source file is a named text together with what was found in it.
-/

namespace ModuleBuild

/-- A named text with its statements and comments. -/
structure SourceFile where
  /-- The name under which the file was given. -/
  name : String
  /-- The text. -/
  text : String
  /-- The top-level statements in order. -/
  statements : List Statement
  /-- The spans of the comments in order. -/
  comments : List Span
  deriving DecidableEq, Repr

namespace SourceFile

/-- The file with this name and text, its statements and comments read from the text. -/
def ofText (name text : String) : SourceFile :=
  let lexed := Lexed.ofText text
  { name, text, statements := (Outline.ofTokens lexed.tokens).statements, comments := lexed.comments }

/-- The line table of the text. -/
def lineTable (f : SourceFile) : LineTable := LineTable.ofText f.text

/-- The place that a span of the text is. -/
def location (f : SourceFile) (span : Span) : Location :=
  let (line, column) := f.lineTable.position f.text span.start
  { file := f.name, line, column, span }

end SourceFile

end ModuleBuild
