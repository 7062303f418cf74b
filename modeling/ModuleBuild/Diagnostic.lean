import ModuleBuild.Source.Span

/-!
# Diagnostics

What an engine has to say about a source file: how severe it is, an optional number, a message that
may have details nested below it, and the place it is about.
-/

namespace ModuleBuild

/-- How severe a diagnostic is. Only an error makes a check fail. -/
inductive Severity where
  /-- Something that could be better. -/
  | suggestion
  /-- Something to know. -/
  | message
  /-- Something that is probably wrong. -/
  | warning
  /-- Something that is wrong. -/
  | error
  deriving DecidableEq, Repr, Inhabited

namespace Severity

/-- The place in the order from suggestion to error. -/
def rank : Severity → Nat
  | suggestion => 0
  | message => 1
  | warning => 2
  | error => 3

/-- The order of two severities. -/
def compare (a b : Severity) : Ordering := Ord.compare a.rank b.rank

/-- Whether a check with such a diagnostic fails. -/
def isError (s : Severity) : Bool := error.rank ≤ s.rank

/-- The word for the severity. -/
def name : Severity → String
  | suggestion => "suggestion"
  | message => "message"
  | warning => "warning"
  | error => "error"

theorem isError_iff {s : Severity} : s.isError = true ↔ s = error := by
  cases s <;> decide

end Severity

/-- A message with the details nested below it. -/
inductive MessageChain where
  /-- A text and its details in order. -/
  | node (text : String) (details : List MessageChain)
  deriving Repr, Inhabited

namespace MessageChain

/-- A message without details. -/
def plain (text : String) : MessageChain := node text []

mutual

/-- The texts of a message and its details in order, each with its level, the message itself on
level `level`. -/
def levels (level : Nat) : MessageChain → List (Nat × String)
  | node text details => (level, text) :: detailLevels (level + 1) details

/-- The texts of several messages in order, each with its level. -/
def detailLevels (level : Nat) : List MessageChain → List (Nat × String)
  | [] => []
  | m :: ms => levels level m ++ detailLevels level ms

end

/-- A text on its own line, indented by two spaces for each level. -/
def indented (level : Nat) (text : String) : String :=
  String.ofList (List.replicate (2 * level) ' ') ++ text

/-- The whole message, with `newline` between the texts and each level indented. -/
def flatten (m : MessageChain) (newline : String) : String :=
  newline.intercalate ((m.levels 0).map fun (level, text) => indented level text)

end MessageChain

/-- A place in a source file. -/
structure Location where
  /-- The name of the file. -/
  file : String
  /-- The line, counted from zero. -/
  line : Nat
  /-- The column, counted from zero. -/
  column : Nat
  /-- The bytes that are meant. -/
  span : Span
  deriving DecidableEq, Repr, Inhabited

/-- Something an engine has to say. -/
structure Diagnostic where
  /-- How severe it is. -/
  severity : Severity
  /-- Its number. -/
  code : Option Nat := none
  /-- What it says. -/
  message : MessageChain
  /-- What it is about. -/
  location : Option Location := none
  deriving Repr, Inhabited

end ModuleBuild
