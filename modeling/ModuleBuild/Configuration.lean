import ModuleBuild.Event
import ModuleBuild.FileTree
import ModuleBuild.Json.Reader
import ModuleBuild.Options

/-!
# Configuration files

A configuration file holds the options of the engine as a JSON object. A file that is missing or
broken does not stop a build: the options are then empty, and an event tells why.
-/

namespace ModuleBuild.Configuration

/-- Why there are no configured options. -/
inductive Error where
  /-- No configuration file is given. -/
  | notGiven
  /-- The file cannot be read. -/
  | unreadable (path : Path) (cause : IoError)
  /-- The file does not hold JSON. -/
  | invalid (path : Path)
  /-- The file holds a JSON value that is not an object. -/
  | notAnObject (path : Path)
  deriving DecidableEq, Repr

/-- The wording of the error. -/
def Error.message : Error → String
  | notGiven => "no configuration file given"
  | unreadable path _ => "cannot read configuration file " ++ path.text
  | invalid path => "configuration file " ++ path.text ++ " is not valid JSON"
  | notAnObject path => "configuration file " ++ path.text ++ " does not contain a JSON object"

/-- The event that tells about the error. -/
def Error.event : Error → Event
  | notGiven => .noConfiguration
  | e => .configurationIgnored e.message

/-- The options in the bytes of a configuration file. -/
def parse (path : Path) (content : ByteArray) : Except Error Options :=
  match (String.fromUTF8? content).bind Json.read? with
  | none => .error (.invalid path)
  | some (.object members) => .ok ⟨members⟩
  | some _ => .error (.notAnObject path)

/-- The options in a configuration file. -/
def read (tree : FileTree) (path : Path) : Except Error Options :=
  match tree.readBytes path with
  | .error cause => .error (.unreadable path cause)
  | .ok content => parse path content

/-- The options in the file at `path`, seen from `base`; empty options if there is no such file. -/
def load (tree : FileTree) (base : Path) (path : Option Path) : Options × List Event :=
  match path.elim (.error .notGiven) fun path => read tree (base.join path) with
  | .ok options => (options, [])
  | .error e => ({}, [e.event])

end ModuleBuild.Configuration
