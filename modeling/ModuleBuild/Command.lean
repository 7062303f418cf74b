import ModuleBuild.Build
import ModuleBuild.Command.Settings
import ModuleBuild.Configuration
import ModuleBuild.Engine.Lexical

/-!
# The command

The command compiles one file with the lexical engine. Its exit code is zero if the check passes, one
if it finds an error, and two if the command line is wrong or the build cannot go on. Diagnostics and
errors go to one place, help and versions to another.
-/

namespace ModuleBuild.Command

/-- What a command does. -/
structure Outcome where
  /-- The exit code. -/
  code : Nat
  /-- What it prints. -/
  output : String := ""
  /-- The diagnostics and errors that it prints. -/
  errors : ByteArray := ByteArray.empty
  /-- The files behind it. -/
  tree : FileTree

/-- The line that tells why a build cannot go on. -/
def failureLine (input : Path) (f : Failure) : String :=
  "error: failed to compile " ++ input.text ++ ": " ++ f.message ++
    f.cause?.elim "" (fun e => ": " ++ e.message) ++ "\n"

/-- The session in which a command compiles; `color` is whether snippets may be painted. -/
def session (tree : FileTree) (color : Bool) (s : Settings) : Session where
  tree
  reporter := { sink := {}, style := if s.pretty then .pretty color else .plain }

/-- Compiles what the settings ask for. -/
def compile (tree : FileTree) (color : Bool) (s : Settings) : Outcome :=
  let base := tree.workingPath
  let (configuration, _) := Configuration.load tree base s.configuration
  let (result, after) :=
    (session tree color s).compile (Engine.lexical base) (s.request base configuration)
  let reported := after.reporter.sink.bytes
  match result with
  | .ok passed => { code := if passed then 0 else 1, errors := reported, tree := after.tree }
  | .error f =>
    { code := 2, errors := reported ++ (failureLine s.input f).toUTF8, tree := after.tree }

/-- The paths that matter to a command line. -/
def paths (base : Path) (arguments : List String) : List Path :=
  match Settings.ofArguments arguments with
  | .ok settings => settings.paths base
  | .error _ => []

/-- Runs a command line. -/
def run (tree : FileTree) (color : Bool) (arguments : List String) : Outcome :=
  let engine := (Engine.lexical tree.workingPath).version
  match Settings.ofArguments arguments with
  | .error (.help full) =>
    { code := 0, output := if full then Help.long engine else Help.short engine, tree }
  | .error .version => { code := 0, output := Help.version engine, tree }
  | .error (.misuse m) => { code := 2, errors := m.message.toUTF8, tree }
  | .ok settings => compile tree color settings

end ModuleBuild.Command
