import ModuleBuild.Report.Sink
import ModuleBuild.Report.Snippet
import ModuleBuild.Source.File

/-!
# Reports

A reporter writes diagnostics to a writer, by default a sink. In the plain style each is a line
`file:line:column: severity: message`, counted from one. In the pretty style a diagnostic is a
snippet if the text of its file is known. A diagnostic without a location is not written at all, and
does not count as an error either.
-/

namespace ModuleBuild

/-- How diagnostics are written. -/
inductive Reporter.Style where
  /-- A line each. -/
  | plain
  /-- Snippets, in colour or not. -/
  | pretty (color : Bool)
  deriving DecidableEq, Repr

/-- A writer with what is needed to write diagnostics to it. -/
structure Reporter (W : Type := Sink) where
  /-- Where the diagnostics go. -/
  sink : W
  /-- How they are written. -/
  style : Reporter.Style := .plain
  /-- The known texts by file name, the last one added first. -/
  sources : List (String × String) := []

namespace Reporter

variable {W : Type}

/-- Makes the text of a file known. The plain style has no use for it. -/
def addSource (r : Reporter W) (file : SourceFile) : Reporter W :=
  match r.style with
  | .plain => r
  | .pretty _ => { r with sources := (file.name, file.text) :: r.sources }

@[simp] theorem sink_addSource (r : Reporter W) (file : SourceFile) :
    (r.addSource file).sink = r.sink := by
  rw [addSource]
  split <;> rfl

/-- The line of a diagnostic. -/
def line (location : Location) (severity : Severity) (message : String) : String :=
  location.file ++ ":" ++ toString (location.line + 1) ++ ":" ++ toString (location.column + 1) ++
    ": " ++ severity.name ++ ": " ++ message

/-- What is written for a diagnostic at a location. -/
def written (r : Reporter W) (d : Diagnostic) (location : Location) : String :=
  let message := d.message.flatten "\n"
  match r.style, r.sources.lookup location.file with
  | .pretty color, some text =>
    Snippet.write color d.severity d.code message location.file location.span text
  | _, _ => line location d.severity message ++ "\n"

/-- Writes diagnostics in order, up to the first that the writer does not take. The answer says whether
one of them is an error. -/
def report [Writer W] (r : Reporter W) : List Diagnostic → Reporter W × Except IoError Bool
  | [] => (r, .ok false)
  | d :: ds =>
    match d.location with
    | none => report r ds
    | some location =>
      match Writer.write r.sink (r.written d location) with
      | (sink, .error e) => ({ r with sink }, .error e)
      | (sink, .ok ()) =>
        let (r, result) := report { r with sink } ds
        (r, result.map (d.severity.isError || ·))

end Reporter

end ModuleBuild
