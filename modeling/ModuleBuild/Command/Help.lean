import ModuleBuild.Command.Parameter

/-!
# Help

The texts that tell how the command is used: a summary with a line for each parameter, and the full
help with a paragraph for each. Usage lines of error messages are here too; they name what was given
and what is needed, or all that settings are made of.
-/

namespace ModuleBuild.Command

/-- The name of the program. -/
def programName : String := "tssc"

/-- The version of the program. -/
def programVersion : String := "0.1.0"

/-- The usage line; `given` are the slots that it names besides the input, if it names any. -/
def usage (given : List Slot) : String :=
  let words :=
    if given = [] then ["[OPTIONS]"] else (given.filterMap Slot.parameter?).eraseDups.map Parameter.label
  "Usage: " ++ " ".intercalate (programName :: words ++ [Slot.input.label])

/-- The usage line that names all slots of settings as alternatives, and in front of them a parameter
that is none of them. -/
def usageOfSettings (p : Parameter) : String :=
  let alternatives := "<" ++ "|".intercalate (Slot.ofSettings.map Slot.alternative) ++ ">"
  let words := if Slot.ofSettings.contains (.parameter p) then [] else [p.label]
  "Usage: " ++ " ".intercalate (programName :: words ++ [alternatives])

namespace Help

/-- What the program does, in one line. -/
def summary : String := "Single-file TypeScript compiler driver"

/-- What the program does. -/
def description : String :=
  "Compiles one TypeScript file, printing diagnostics one per line\n" ++
    "and optionally writing a Makefile-style dependency file."

/-- What the input is. -/
def ofInput : String := "Input TypeScript file"

/-- What a parameter does; `full` is whether this is said in the full help. -/
def ofParameter (full : Bool) : Parameter → String
  | .output => "Output file (default: the input with a .js extension)"
  | .noEmit => "Only type-check, do not emit"
  | .noCheck => "Do not type-check, only emit"
  | .createDeps => "Write a Makefile-style dependency file next to the output"
  | .configuration => "JSON file holding engine options"
  | .pretty => "Render diagnostics with source snippets"
  | .version => "Print version"
  | .help => if full then "Print help (see a summary with '-h')" else "Print help (see more with '--help')"

/-- The names of a parameter as a list of parameters shows them. -/
def names (p : Parameter) : String :=
  "  " ++ p.shorts.head?.elim "    " (fun c => String.ofList ['-', c, ',', ' ']) ++ p.label

/-- A text filled up with spaces on the right. -/
def padRight (width : Nat) (s : String) : String :=
  s ++ String.ofList (List.replicate (width - s.length) ' ')

/-- The width of the longest of some texts. -/
def widest (texts : List String) : Nat := (texts.map String.length).foldl max 0

/-- The indentation of a description on a line of its own. -/
def indent : String := "          "

/-- The last line of both helps, which tells the version of the engine. -/
def closing (engine : String) : String := "Using " ++ engine ++ "\n"

/-- The help in short: a line for each parameter. -/
def short (engine : String) : String :=
  let width := widest (Parameter.all.map names)
  let row (p : Parameter) := padRight width (names p) ++ "  " ++ ofParameter false p ++ "\n"
  summary ++ "\n\n" ++ usage [] ++ "\n\n" ++
    "Arguments:\n  " ++ Slot.input.label ++ "  " ++ ofInput ++ "\n\n" ++
    "Options:\n" ++ "".intercalate (Parameter.all.map row) ++ "\n" ++ closing engine

/-- The help in full: a paragraph for each parameter. -/
def long (engine : String) : String :=
  let paragraph (p : Parameter) := names p ++ "\n" ++ indent ++ ofParameter true p ++ "\n"
  description ++ "\n\n" ++ usage [] ++ "\n\n" ++
    "Arguments:\n  " ++ Slot.input.label ++ "\n" ++ indent ++ ofInput ++ "\n\n" ++
    "Options:\n" ++ "\n".intercalate (Parameter.all.map paragraph) ++ "\n" ++ closing engine

/-- The line that tells the versions of the program and of the engine. -/
def version (engine : String) : String :=
  programName ++ " " ++ programVersion ++ " (using " ++ engine ++ ")\n"

end Help

end ModuleBuild.Command
