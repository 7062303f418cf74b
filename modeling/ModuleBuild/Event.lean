import ModuleBuild.Path

/-!
# Events

What a build tells about its progress besides the diagnostics. An event is written on one line: its
level, the part of the program that it comes from, a message, and named values.
-/

namespace ModuleBuild

/-- Something that happens during a build. -/
inductive Event where
  /-- The engine has read the input and found its tokens, statements and problems. -/
  | scanned (file : Path) (tokens statements problems : Nat)
  /-- There is no configuration file. -/
  | noConfiguration
  /-- The configuration file cannot be used. -/
  | configurationIgnored (reason : String)
  /-- The engine has built the program of the input. -/
  | created (input : Path) (imports : Nat)
  /-- The check has found an error. -/
  | checkFailed (input : Path)
  /-- The check has found no error among its diagnostics. -/
  | checkPassed (diagnostics : Nat)
  /-- The manifest is written. -/
  | manifestWritten (path : Path) (dependencies : Nat)
  /-- A later module takes the place of one that the engine has emitted before. -/
  | replaced (name : Path)
  /-- An emitted file is not a module. -/
  | ignored (name : Path)
  /-- The engine names its module in another way than the request. -/
  | renamed (name : Path)
  /-- The output is written. -/
  | outputWritten (path : Path) (bytes : Nat)
  /-- The engine has emitted no module. -/
  | nothingEmitted (input : Path) (skipped : Bool)
  deriving DecidableEq, Repr

namespace Event

/-- How much an event matters. -/
def level : Event → String
  | configurationIgnored .. | nothingEmitted .. => "WARN"
  | checkFailed .. | outputWritten .. => "INFO"
  | _ => "DEBUG"

/-- The part of the program that an event comes from. -/
def origin : Event → String
  | scanned .. => "tssc_engine::script"
  | noConfiguration | configurationIgnored .. => "tssc_driver::config"
  | manifestWritten .. => "tssc_driver::deps"
  | _ => "tssc_driver::driver"

/-- What the event says. -/
def message : Event → String
  | scanned .. => "scanned source file"
  | noConfiguration => "no configuration file, using engine defaults"
  | configurationIgnored .. => "ignoring configuration file"
  | created .. => "created program"
  | checkFailed .. => "check failed, nothing emitted"
  | checkPassed .. => "check passed"
  | manifestWritten .. => "wrote dependency file"
  | replaced .. => "engine emitted more than one module"
  | ignored .. => "ignoring emitted file"
  | renamed .. => "writing emitted file under the requested name"
  | outputWritten .. => "wrote output"
  | nothingEmitted .. => "engine emitted nothing"

/-- The named values of the event. -/
def fields : Event → List (String × String)
  | scanned file tokens statements problems =>
    [("file", file.text), ("tokens", toString tokens), ("statements", toString statements),
      ("problems", toString problems)]
  | noConfiguration => []
  | configurationIgnored reason => [("error", reason)]
  | created input imports => [("input", input.text), ("imports", toString imports)]
  | checkFailed input => [("input", input.text)]
  | checkPassed diagnostics => [("diagnostics", toString diagnostics)]
  | manifestWritten path dependencies =>
    [("path", path.text), ("dependencies", toString dependencies)]
  | replaced name => [("replaced", name.text)]
  | ignored name => [("name", name.text)]
  | renamed name => [("engine_name", name.text)]
  | outputWritten path bytes => [("output", path.text), ("bytes", toString bytes)]
  | nothingEmitted input skipped => [("input", input.text), ("skipped", toString skipped)]

/-- The line of an event. -/
def write (e : Event) : String :=
  e.fields.foldl (fun line (name, value) => line ++ " " ++ name ++ "=" ++ value)
    (e.level ++ " " ++ e.origin ++ ": " ++ e.message)

end Event

end ModuleBuild
