import ModuleBuild.Path
import ModuleBuild.Source.File

/-!
# Manifests

A manifest names the output of a build and the modules that it imports, in the form of a rule of a
makefile: the output, a colon, and the dependencies with spaces between them. Only the import
declarations of the file itself count, each as the module that the imported file is emitted as.
-/

namespace ModuleBuild.Manifest

/-- The extension of emitted modules, with its point. -/
def moduleExtension : String := ".js"

/-- The modules that a file imports, in order and as written. -/
def imports (file : SourceFile) : List String :=
  (file.statements.filterMap Statement.imported?).map fun s => s.unquoted ++ moduleExtension

/-- The imports as paths from the directory of the output. -/
def resolve (base output : Path) (imports : List String) : List Path :=
  let dir := base.join (output.parent?.getD ⟨""⟩)
  imports.map fun i => (dir.join ⟨i⟩).normalize

/-- The path of the manifest of an output. -/
def path (output : Path) : Path := ⟨output.text ++ ".d"⟩

/-- The text of the manifest. -/
def write (output : Path) (dependencies : List Path) : String :=
  output.text ++ ": " ++ " ".intercalate (dependencies.map Path.text)

end ModuleBuild.Manifest
