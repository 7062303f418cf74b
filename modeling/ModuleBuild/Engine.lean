import ModuleBuild.Event
import ModuleBuild.FileTree
import ModuleBuild.Options
import ModuleBuild.Source.File

/-!
# Engines

An engine builds the program of an input file. The program answers three questions: which source
file has a given name, what is to be said about a file, and what a file is compiled to.
-/

namespace ModuleBuild

/-- A file that a program emits. -/
structure EmittedFile where
  /-- The name that the engine gives it. -/
  name : Path
  /-- Its text. -/
  text : String
  deriving DecidableEq, Repr

/-- What emitting a source file gives. -/
structure Emission where
  /-- The emitted files in order. -/
  outputs : List EmittedFile := []
  /-- Whether the engine declined to emit. -/
  skipped : Bool := false
  /-- What is to be said about it. -/
  diagnostics : List Diagnostic := []

/-- A program built from an input file. -/
structure Program where
  /-- The source file with a name. -/
  sourceFile? : Path → Option SourceFile
  /-- The diagnostics of a source file before anything is emitted. -/
  check : SourceFile → List Diagnostic
  /-- Compiles a source file. -/
  emit : SourceFile → Emission

/-- Why an engine cannot build a program. -/
inductive Engine.Error where
  /-- The input cannot be read. -/
  | unreadable (path : Path) (cause : IoError)
  deriving DecidableEq, Repr

/-- Something that builds programs. -/
structure Engine where
  /-- The name and version of the engine. -/
  version : String
  /-- Builds the program of an input file, and tells about it. -/
  createProgram : FileTree → Path → Options → Except Engine.Error Program × List Event

end ModuleBuild
