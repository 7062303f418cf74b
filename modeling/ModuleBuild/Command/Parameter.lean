/-!
# Parameters

The parameters of the command line. Each has a long name and may have short ones; some take a value.
Besides its parameters a command has one input.
-/

namespace ModuleBuild.Command

/-- A parameter of the command line. -/
inductive Parameter where
  /-- Where the output goes. -/
  | output
  /-- Check only. -/
  | noEmit
  /-- Emit only. -/
  | noCheck
  /-- Write a manifest. -/
  | createDeps
  /-- Where the options of the engine are. -/
  | configuration
  /-- Report diagnostics as snippets. -/
  | pretty
  /-- Print the version. -/
  | version
  /-- Print help. -/
  | help
  deriving DecidableEq, Repr

namespace Parameter

/-- All parameters, in the order in which help lists them. -/
def all : List Parameter :=
  [output, noEmit, noCheck, createDeps, configuration, pretty, version, help]

theorem mem_all (p : Parameter) : p ∈ all := by cases p <;> decide

/-- The long name. -/
def long : Parameter → String
  | output => "output"
  | noEmit => "no-emit"
  | noCheck => "no-check"
  | createDeps => "create-deps"
  | configuration => "configuration"
  | pretty => "pretty"
  | version => "version"
  | help => "help"

/-- The short names; help tells the first one. -/
def shorts : Parameter → List Char
  | output => ['o']
  | noEmit => ['C']
  | noCheck => ['E']
  | createDeps => ['d']
  | configuration => ['c']
  | pretty => []
  | version => ['V', 'v']
  | help => ['h']

/-- What the value is called, if the parameter takes one. -/
def valueName? : Parameter → Option String
  | output => some "OUTPUT"
  | configuration => some "PATH"
  | _ => none

/-- Whether the parameter takes a value. -/
def takesValue (p : Parameter) : Bool := p.valueName?.isSome

/-- The parameter with a long name. -/
def ofLong? (name : String) : Option Parameter := all.find? fun p => p.long = name

/-- The parameter with a short name. -/
def ofShort? (c : Char) : Option Parameter := all.find? fun p => p.shorts.contains c

theorem ofLong?_long (p : Parameter) : ofLong? p.long = some p := by cases p <;> decide

/-- The parameter as messages show it. -/
def label (p : Parameter) : String :=
  "--" ++ p.long ++ p.valueName?.elim "" fun v => " <" ++ v ++ ">"

end Parameter

/-- What an argument can be given for. -/
inductive Slot where
  /-- The input. -/
  | input
  /-- A parameter. -/
  | parameter (p : Parameter)
  deriving DecidableEq, Repr

namespace Slot

/-- The slot as one of several alternatives. -/
def alternative : Slot → String
  | input => "INPUT"
  | parameter p => p.label

/-- The slot as messages show it. -/
def label : Slot → String
  | input => "<" ++ input.alternative ++ ">"
  | parameter p => p.label

/-- The parameter, if the slot is one. -/
def parameter? : Slot → Option Parameter
  | input => none
  | parameter p => some p

/-- The slots that settings are made of; the others ask for a text instead. -/
def ofSettings : List Slot :=
  input :: (Parameter.all.filter fun p => p ≠ .version && p ≠ .help).map parameter

end Slot

end ModuleBuild.Command
