import ModuleBuild.Command.Misuse
import ModuleBuild.Manifest
import ModuleBuild.Request
import ModuleBuild.Text.Similarity

/-!
# Settings

What a command line asks for. The arguments are read from left to right. One that begins with `--`
gives a parameter by its long name, with a value behind `=`; one that begins with `-` gives parameters
by their short names, the last of them with the rest of the argument as its value. A parameter that
takes a value and has none yet takes the next argument, unless that one begins with `-` itself. All
other arguments are inputs, and so is every argument behind the separator `--`.

A value is settled only by the argument behind it. So an argument that cannot be understood is told
before a value that cannot be accepted.
-/

namespace ModuleBuild.Command

/-- What a command line asks for. -/
structure Settings where
  /-- The file to compile. -/
  input : Path
  /-- The file to write, if it is given. -/
  output : Option Path := none
  /-- The configuration file, if there is one. -/
  configuration : Option Path := none
  /-- Whether the input is checked. -/
  check : Bool := true
  /-- Whether the output is written. -/
  emit : Bool := true
  /-- Whether a manifest is written. -/
  createDeps : Bool := false
  /-- Whether diagnostics are reported as snippets. -/
  pretty : Bool := false
  deriving DecidableEq, Repr

/-- Why a command line asks for no compilation. -/
inductive Interruption where
  /-- It asks for help. -/
  | help (full : Bool)
  /-- It asks for the version. -/
  | version
  /-- It is wrong. -/
  | misuse (m : Misuse)
  deriving DecidableEq, Repr

/-! ## Arguments -/

/-- What an argument looks like. -/
inductive Argument where
  /-- The separator `--`. -/
  | separator
  /-- A long name, with the value behind its `=`. -/
  | long (name : String) (value : Option String)
  /-- Short names. -/
  | short (names : List Char)
  /-- Anything else, `-` among it. -/
  | plain
  deriving DecidableEq, Repr

/-- What a text looks like as an argument. -/
def Argument.ofText (text : String) : Argument :=
  match text.toList with
  | ['-'] => .plain
  | ['-', '-'] => .separator
  | '-' :: '-' :: cs =>
    .long (String.ofList (cs.takeWhile (· ≠ '=')))
      ((cs.dropWhile (· ≠ '=')).tail?.map String.ofList)
  | '-' :: cs => .short cs
  | _ => .plain

/-! ## Reading -/

/-- How far a command line has been understood. -/
structure Reading where
  /-- What is settled, in the order in which it was given. -/
  settled : List (Slot × String) := []
  /-- What is not settled yet: a slot with its value, or without one if that is still to come. -/
  pending : Option (Slot × Option String) := none
  deriving DecidableEq, Repr

namespace Reading

/-- The settled slots in order. -/
def slots (r : Reading) : List Slot := r.settled.map Prod.fst

/-- Whether there is an input. -/
def hasInput (r : Reading) : Bool :=
  r.slots.contains .input || r.pending.any (·.1 = .input)

/-- Settles a slot with a value, or without one if it takes none. A slot given twice is not settled
any more, and an empty value is one that is missing. -/
def accept (r : Reading) (slot : Slot) (value : Option String) : Reading × Option Misuse :=
  if r.slots.contains slot then
    ({ r with settled := r.settled.filter (·.1 ≠ slot) }, some (.repeated slot))
  else
    ({ r with settled := r.settled ++ [(slot, value.getD "")] },
      if value = some "" then some (.valueRequired slot) else none)

/-- Settles what is pending. -/
def settle (r : Reading) : Reading × Option Misuse :=
  match r.pending with
  | none => (r, none)
  | some (slot, none) => ({ r with pending := none }, some (.valueRequired slot))
  | some (slot, value) => { r with pending := none }.accept slot value

/-- The reading, if nothing is wrong with it. -/
def orMisuse : Reading × Option Misuse → Except Interruption Reading
  | (r, none) => .ok r
  | (_, some m) => .error (.misuse m)

/-- A slot whose value, if it takes one, is part of the same argument. -/
def give (r : Reading) (slot : Slot) (value : Option String) : Except Interruption Reading := do
  let r ← orMisuse r.settle
  orMisuse (r.accept slot value)

/-- A slot that may be completed or replaced by the next argument. -/
def hold (r : Reading) (slot : Slot) (value : Option String) : Except Interruption Reading := do
  let r ← orMisuse r.settle
  return { r with pending := some (slot, value) }

/-- A parameter without a value; `full` is whether it is given by its long name. -/
def flag (r : Reading) (full : Bool) (p : Parameter) : Except Interruption Reading := do
  let r ← orMisuse r.settle
  match p with
  | .help => throw (.help full)
  | .version => throw .version
  | p => orMisuse (r.accept (.parameter p) none)

/-- Short names. -/
def readShort (r : Reading) : List Char → Except Interruption Reading
  | [] => .ok r
  | c :: cs =>
    match Parameter.ofShort? c with
    | none => .error (.misuse (.unknownShort c))
    | some p =>
      if !p.takesValue then
        (r.flag false p).bind fun r => r.readShort cs
      else if cs = [] then r.hold (.parameter p) none
      else r.give (.parameter p) (some (String.ofList (if cs.head? = some '=' then cs.tail else cs)))

/-- A long name. -/
def readLong (r : Reading) (name : String) (value : Option String) : Except Interruption Reading :=
  match Parameter.ofLong? name with
  | none =>
    let meant := Text.closest? Parameter.long name Parameter.all
    .error (.misuse (.unknownLong name meant r.settle.1.slots))
  | some p =>
    match p.takesValue, value with
    | true, none => r.hold (.parameter p) none
    | true, value => r.give (.parameter p) value
    | false, none => r.flag true p
    | false, some v =>
      .error (.misuse (.unexpectedValue v p r.slots))

/-- An input. -/
def readInput (r : Reading) (text : String) : Except Interruption Reading :=
  if r.hasInput then .error (.misuse (.extraInput text)) else r.hold .input (some text)

/-- An argument that is the value of the parameter in front of it if that needs one, and an input
otherwise. -/
def readPlain (r : Reading) (text : String) : Except Interruption Reading :=
  match r.pending with
  | some (slot, none) => .ok { r with pending := some (slot, some text) }
  | _ => r.readInput text

/-- Arguments, all of them inputs if `inputs` is true. -/
def readAll (r : Reading) (inputs : Bool) : List String → Except Interruption Reading
  | [] => orMisuse r.settle
  | text :: rest =>
    if inputs then (r.readInput text).bind fun r => r.readAll true rest
    else
      match Argument.ofText text with
      | .separator => r.readAll true rest
      | .long name value => (r.readLong name value).bind fun r => r.readAll false rest
      | .short names => (r.readShort names).bind fun r => r.readAll false rest
      | .plain => (r.readPlain text).bind fun r => r.readAll false rest

/-- The value of a settled slot. -/
def value? (r : Reading) (slot : Slot) : Option Path := (r.settled.lookup slot).map Path.mk

/-- Whether a parameter is given. -/
def has (r : Reading) (p : Parameter) : Bool := r.slots.contains (.parameter p)

/-- The settings that were read. -/
def toSettings (r : Reading) : Except Interruption Settings :=
  match r.value? .input with
  | none => .error (.misuse (.missingInput r.slots))
  | some input =>
    .ok
      { input
        output := r.value? (.parameter .output)
        configuration := r.value? (.parameter .configuration)
        check := !r.has .noCheck
        emit := !r.has .noEmit
        createDeps := r.has .createDeps
        pretty := r.has .pretty }

end Reading

namespace Settings

/-- The settings that a command line asks for. -/
def ofArguments (arguments : List String) : Except Interruption Settings :=
  (Reading.readAll {} false arguments).bind Reading.toSettings

/-- The output: the one that is given, or the default. -/
def outputPath (s : Settings) : Path := s.output.getD (Request.defaultOutput s.input)

/-- The request, with the engine options that were configured. -/
def request (s : Settings) (base : Path) (configuration : Options) : Request where
  input := s.input
  output := s.outputPath
  check := s.check
  emit := s.emit
  createDeps := s.createDeps
  configuration
  base

/-- The paths that matter to the command: what it may read, and what it may write. -/
def paths (s : Settings) (base : Path) : List Path :=
  (s.configuration.toList ++ [s.input, Manifest.path s.outputPath, s.outputPath]).map base.join

end Settings

end ModuleBuild.Command
