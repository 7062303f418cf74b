import ModuleBuild.Command.Help
import ModuleBuild.Text.ControlSequence

/-!
# Misuse of the command

What can be wrong with a command line, and how that is told: the error, a tip if there is one, and a
usage line that shows the parameters given so far. Of an argument the text shows what a terminal would
show of it.
-/

namespace ModuleBuild.Command

/-- What is wrong with a command line. -/
inductive Misuse where
  /-- There is no input, but some parameters. -/
  | missingInput (given : List Slot)
  /-- The value is missing or empty. -/
  | valueRequired (slot : Slot)
  /-- Something is given twice. -/
  | repeated (slot : Slot)
  /-- A parameter that takes no value has one. -/
  | unexpectedValue (value : String) (p : Parameter) (given : List Slot)
  /-- There is a second input. -/
  | extraInput (text : String)
  /-- No parameter has this short name. -/
  | unknownShort (name : Char)
  /-- No parameter has this long name, but one may have been meant. -/
  | unknownLong (name : String) (meant : Option Parameter) (given : List Slot)
  deriving DecidableEq, Repr

namespace Misuse

/-- The error that an argument is none that the command has a place for. -/
def unexpected (argument : String) : String :=
  "unexpected argument '" ++ Text.visible argument ++ "' found"

/-- The error itself. -/
def headline : Misuse → String
  | missingInput _ => "the following required arguments were not provided:\n  " ++ Slot.input.label
  | valueRequired slot => "a value is required for '" ++ slot.label ++ "' but none was supplied"
  | repeated slot => "the argument '" ++ slot.label ++ "' cannot be used multiple times"
  | unexpectedValue value p _ =>
    "unexpected value '" ++ Text.visible value ++ "' for '" ++ p.label ++
      "' found; no more were expected"
  | extraInput text => unexpected text
  | unknownShort name => unexpected (String.ofList ['-', name])
  | unknownLong name .. => unexpected ("--" ++ name)

/-- The tip to give an argument that looks like a parameter behind the separator. -/
def separatorTip (argument : String) : String :=
  let shown := Text.visible argument
  "  tip: to pass '" ++ shown ++ "' as a value, use '-- " ++ shown ++ "'"

/-- The tip, if there is one. -/
def tip? : Misuse → Option String
  | unknownShort name => some (separatorTip (String.ofList ['-', name]))
  | unknownLong name none _ => some (separatorTip ("--" ++ name))
  | unknownLong _ (some p) _ => some ("  tip: a similar argument exists: '--" ++ p.long ++ "'")
  | _ => none

/-- The usage line, if there is one. -/
def usage? : Misuse → Option String
  | missingInput given => some (usage (given ++ [.input]))
  | valueRequired _ => none
  | unexpectedValue _ p given =>
    some (if given = [] then usage [.parameter p] else usageOfSettings p)
  | unknownLong _ meant given => some (usage (given ++ (meant.map Slot.parameter).toList))
  | _ => some (usage [])

/-- All that is told. -/
def message (m : Misuse) : String :=
  "\n\n".intercalate
      (("error: " ++ m.headline) :: m.tip?.toList ++ m.usage?.toList ++
        ["For more information, try '" ++ "--" ++ Parameter.help.long ++ "'."]) ++ "\n"

end Misuse

end ModuleBuild.Command
