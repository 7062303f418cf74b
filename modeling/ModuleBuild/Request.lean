import ModuleBuild.Options

/-!
# Requests

A request says which file to compile, where the output goes, and which of the steps to take.
-/

namespace ModuleBuild

/-- The description of one compilation. -/
structure Request where
  /-- The file to compile. -/
  input : Path
  /-- The file to write. -/
  output : Path
  /-- Whether the input is checked before anything is written. -/
  check : Bool := true
  /-- Whether the output is written. -/
  emit : Bool := true
  /-- Whether a manifest is written next to the output. -/
  createDeps : Bool := false
  /-- The options of the engine. -/
  configuration : Options := {}
  /-- The directory in which relative paths start. -/
  base : Path := ⟨"."⟩
  deriving Inhabited

namespace Request

/-- The output for an input when none is given: the input with the extension of a module. -/
def defaultOutput (input : Path) : Path := input.withExtension "js"

/-- The directory of the output as written. -/
def outputDir (r : Request) : Path := r.output.parent?.getD ⟨""⟩

/-- A path of the request seen from its base. -/
def resolve (r : Request) (path : Path) : Path := r.base.join path

/-- The options with which the engine works: emitted files belong into the directory of the
output. -/
def engineOptions (r : Request) : Options := r.configuration.withOutDir r.outputDir

end Request

end ModuleBuild
