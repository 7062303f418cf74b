import ModuleBuild.Command

/-!
# The program

Reads from the disk what the command may touch, runs the command on it, and writes back what has
changed. All decisions are the command's.
-/

namespace ModuleBuild.Disk

/-- The name of a place on the disk. -/
def nameOf (place : Place) : String := "/" ++ "/".intercalate place

/-- What is at a place on the disk; what cannot be read is not there. -/
def read? (place : Place) : IO (Option Node) := do
  try
    return some (.file (← IO.FS.readBinFile (nameOf place)))
  catch
    | .inappropriateType .. => return some .directory
    | _ => return none

/-- Adds what is at a place on the disk, if its parent is a directory. -/
def addPlace (tree : FileTree) (place : Place) : IO FileTree := do
  if tree.node? place.dropLast = some .directory && tree.node? place = none then
    match ← read? place with
    | some node => return tree.put place node
    | none => return tree
  else return tree

/-- The tree of everything that is passed along the paths that matter to a command line. -/
def load (arguments : List String) : IO FileTree := do
  let directory := ((← IO.currentDir).toString.splitOn "/").filter (· ≠ "")
  let empty : FileTree := { workingDirectory := directory }
  let paths := ⟨"."⟩ :: Command.paths empty.workingPath arguments
  let ways := paths.flatMap fun p => empty.placesOn (empty.workingPath.join p)
  ways.foldlM addPlace empty

/-- Writes what a tree has more than another one, parents first. -/
def save (before after : FileTree) : IO Unit :=
  after.entries.forM fun (place, node) => do
    if before.node? place ≠ some node then
      match node with
      | .directory => IO.FS.createDir (nameOf place)
      | .file content => IO.FS.writeBinFile (nameOf place) content

end ModuleBuild.Disk

open ModuleBuild in
/-- Runs the command on the disk. -/
def main (arguments : List String) : IO UInt32 := do
  let errors ← IO.getStderr
  let tree ← Disk.load arguments
  let outcome := Command.run tree (← errors.isTty) arguments
  Disk.save tree outcome.tree
  (← IO.getStdout).putStr outcome.output
  errors.write outcome.errors
  return UInt32.ofNat outcome.code
