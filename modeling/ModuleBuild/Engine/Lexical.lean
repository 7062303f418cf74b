import ModuleBuild.Engine
import ModuleBuild.Engine.Erasure

/-!
# The lexical engine

The bundled engine does not check types. It reports what its tokens show to be wrong, and compiles a
file by erasing its type-only imports. Its programs have one source file.
-/

namespace ModuleBuild

/-- A program of one source file. -/
structure LexicalProgram where
  /-- The source file. -/
  file : SourceFile
  /-- The options. -/
  options : Options
  /-- The problems of the file. -/
  diagnostics : List Diagnostic

namespace LexicalProgram

/-- A problem tied to a file. -/
def diagnosticOf (file : SourceFile) (p : Problem) : Diagnostic where
  severity := .error
  code := p.code
  message := .plain p.message
  location := file.location p.span

/-- The source file whose name is the same path. -/
def sourceFile? (p : LexicalProgram) (name : Path) : Option SourceFile :=
  if Path.sameAs ⟨p.file.name⟩ name then some p.file else none

/-- Whether the program is about this file, which its name decides. -/
def owns (p : LexicalProgram) (file : SourceFile) : Bool := file.name = p.file.name

/-- The problems of the file; there are none for other files. -/
def check (p : LexicalProgram) (file : SourceFile) : List Diagnostic :=
  if p.owns file then p.diagnostics else []

/-- The name of the emitted module: the stem of the source file in the directory for emitted files,
which is the source file's own if none is given. -/
def outputName (p : LexicalProgram) : Path :=
  let input : Path := ⟨p.file.name⟩
  let dir := p.options.outDir?.getD (input.parent?.getD ⟨""⟩)
  dir.join ⟨input.fileStem?.getD "" ++ ".js"⟩

/-- Compiles a file by erasure. Another program's file is skipped, and so is every file if the
options forbid emitting. -/
def emit (p : LexicalProgram) (file : SourceFile) : Emission :=
  if !p.owns file || p.options.isSet "noEmit" then { skipped := true }
  else { outputs := [⟨p.outputName, Erasure.erase file (p.options.isSet "removeComments")⟩] }

/-- The program as one that any engine may build. -/
def toProgram (p : LexicalProgram) : Program := ⟨p.sourceFile?, p.check, p.emit⟩

/-- The program of a text under the name `root`. -/
def ofText (root : Path) (options : Options) (text : String) : LexicalProgram × Event :=
  let lexed := Lexed.ofText text
  let outline := Outline.ofTokens lexed.tokens
  let file : SourceFile :=
    { name := root.text, text, statements := outline.statements, comments := lexed.comments }
  ({ file, options, diagnostics := outline.problems.map (diagnosticOf file) },
    .scanned root lexed.tokens.length outline.statements.length outline.problems.length)

/-- The program of the file `root`, seen from `base`. -/
def create (base : Path) (tree : FileTree) (root : Path) (options : Options) :
    Except Engine.Error LexicalProgram × List Event :=
  let path := base.join root
  match tree.readText path with
  | .error cause => (.error (.unreadable path cause), [])
  | .ok text =>
    let (program, event) := ofText root options text
    (.ok program, [event])

end LexicalProgram

/-- The lexical engine that looks for its files from `base`. -/
def Engine.lexical (base : Path) : Engine where
  version := "tssc-engine 0.1.0"
  createProgram tree root options :=
    let (program, events) := LexicalProgram.create base tree root options
    (program.map LexicalProgram.toProgram, events)

end ModuleBuild
