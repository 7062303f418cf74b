import ModuleBuild.Proofs.Path.Resolution

/-!
# Reading manifests

A manifest is read by splitting what follows the output at its spaces. Nothing in a manifest is marked,
so a space in a dependency looks like one between two dependencies, and a line feed in a dependency ends
the line. Both can be in the specifier of an import: a string takes any character, and behind a
backslash even the end of a line.

Main statements: `dependencies?_write_iff` and `mem_write_iff`; and `readable_iff`, by which exactly the
spaces and line feeds that are left of the specifiers of a file stand in the way.
-/

namespace ModuleBuild.Manifest

/-! ## Splitting -/

theorem not_mem_of_mem_splitOn {c : Char} {cs l : List Char} (h : l ∈ cs.splitOn c) : c ∉ l := by
  induction cs generalizing l with
  | nil =>
    obtain rfl : l = [] := by simpa [List.splitOn] using h
    exact List.not_mem_nil
  | cons d ds ih =>
    unfold List.splitOn at h ih
    rw [List.splitOnP_cons_eq_if_modifyHead] at h
    split at h
    · rcases List.mem_cons.mp h with rfl | h
      · exact List.not_mem_nil
      · exact ih h
    · next hne =>
      obtain ⟨first, rest, hsplit⟩ := List.exists_cons_of_ne_nil (List.splitOnP_ne_nil (· == c) ds)
      rw [hsplit] at h ih
      rcases List.mem_cons.mp h with rfl | h
      · intro hc
        rcases List.mem_cons.mp hc with rfl | hc
        · exact hne (by simp)
        · exact ih (List.mem_cons_self ..) hc
      · exact ih (List.mem_cons_of_mem _ h)

/-- The dependencies that a manifest of an output names: what follows the output, split at each space. -/
def dependencies? (output : Path) (text : String) : Option (List Path) :=
  ((output.text ++ ": ").toList.isPrefixOf? text.toList).map fun rest =>
    (rest.splitOn ' ').map fun cs => ⟨String.ofList cs⟩

/-- A manifest is read back exactly if none of its dependencies has a space. -/
theorem dependencies?_write_iff (output : Path) {deps : List Path} (hne : deps ≠ []) :
    dependencies? output (write output deps) = some deps ↔ ∀ d ∈ deps, ' ' ∉ d.text.toList := by
  have hrest : (output.text ++ ": ").toList.isPrefixOf? (write output deps).toList =
      some ([' '].intercalate (deps.map fun d => d.text.toList)) := by
    have hdeps : (" ".intercalate (deps.map Path.text)).toList =
        [' '].intercalate (deps.map fun d => d.text.toList) := by
      rw [String.toList_intercalate, List.map_map]
      rfl
    rw [List.isPrefixOf?_eq_some_iff_append_eq, ← hdeps, write, ← String.toList_append]
  unfold dependencies?
  rw [hrest, Option.map_some, Option.some.injEq]
  constructor
  · intro h d hd
    rw [← h] at hd
    obtain ⟨cs, hcs, rfl⟩ := List.mem_map.mp hd
    rw [String.toList_ofList]
    exact not_mem_of_mem_splitOn hcs
  · intro h
    rw [List.splitOn_intercalate ' ' (by simpa using h) (by simpa using hne), List.map_map]
    exact List.map_id'' (fun d => by simp) deps

/-- What stands in a manifest stands in the output or in a dependency, but for the marks between them. -/
theorem mem_write_iff (output : Path) (deps : List Path) {c : Char} (hcolon : c ≠ ':') (hspace : c ≠ ' ') :
    c ∈ (write output deps).toList ↔ c ∈ output.text.toList ∨ ∃ d ∈ deps, c ∈ d.text.toList := by
  have hmark : c ∉ " ".toList := by simpa using hspace
  have hdeps := Path.mem_toList_intercalate_iff hmark (deps.map Path.text)
  rw [write, String.toList_append, String.toList_append, List.mem_append, List.mem_append, hdeps]
  simp [hcolon, hspace]

/-! ## Manifests of files -/

open ModuleBuild.Path

/-- The directory from which the imports of an output are seen. -/
def start (base output : Path) : Destination :=
  (base.join (output.parent?.getD ⟨""⟩)).destination .here

section Resolve

variable {base output : Path} {imports : List String} {c : Char}

/-- A character other than a slash or a point is in a resolved import exactly if it is in a name that is
left of it. -/
theorem mem_resolve_iff (hslash : c ≠ '/') (hdot : c ≠ '.') :
    (∀ d ∈ resolve base output imports, c ∉ d.text.toList) ↔
      ∀ i ∈ imports, ∀ name ∈ (destination ⟨i⟩ (start base output)).names, c ∉ name.toList := by
  unfold resolve start
  simp only [List.mem_map, forall_exists_index, and_imp, forall_apply_eq_imp_iff₂,
    mem_normalize_iff _ hslash hdot, destination_join]
  simp

/-- The names of the directory are made of the characters of the base and the output. -/
theorem mem_of_mem_names_start {name : String} (hslash : c ≠ '/')
    (hname : name ∈ (start base output).names) (hc : c ∈ name.toList) :
    c ∈ base.text.toList ∨ c ∈ output.text.toList := by
  rw [start, destination_join] at hname
  rcases mem_of_mem_names_destination hname hc with hparent | ⟨n, hn, hcn⟩
  · right
    cases hcase : output.parent? with
    | none => simp [hcase] at hparent
    | some parent =>
      rw [hcase] at hparent
      exact mem_of_mem_parent? hcase hslash hparent
  · rcases mem_of_mem_names_destination hn hcn with hbase | ⟨n', hn', -⟩
    · exact Or.inl hbase
    · exact absurd hn' List.not_mem_nil

/-- A character that is neither in the base nor in the output nor in an import is in no resolved
import. -/
theorem not_mem_of_mem_resolve (hslash : c ≠ '/') (hdot : c ≠ '.') (hbase : c ∉ base.text.toList)
    (houtput : c ∉ output.text.toList) (himports : ∀ i ∈ imports, c ∉ i.toList) :
    ∀ d ∈ resolve base output imports, c ∉ d.text.toList := by
  rw [mem_resolve_iff hslash hdot]
  intro i hi name hname hc
  rcases mem_of_mem_names_destination hname hc with hcon | ⟨n, hn, hcn⟩
  · exact himports i hi hcon
  · rcases mem_of_mem_names_start hslash hn hcn with hcon | hcon
    · exact hbase hcon
    · exact houtput hcon

end Resolve

/-- The manifest of a file that imports something is a single line exactly if no name that is left of
its imports has a line feed, and it is read back exactly if none has a space. So it is both if the
specifiers have neither. -/
theorem readable_iff (name text : String) (base output : Path)
    (hfree : ∀ c, c = ' ' ∨ c = '\n' → c ∉ base.text.toList ∧ c ∉ output.text.toList)
    (himports : imports (SourceFile.ofText name text) ≠ []) :
    let imports := imports (SourceFile.ofText name text)
    let deps := resolve base output imports
    ('\n' ∉ (write output deps).toList ↔
      ∀ i ∈ imports, ∀ n ∈ (destination ⟨i⟩ (start base output)).names, '\n' ∉ n.toList) ∧
    (dependencies? output (write output deps) = some deps ↔
      ∀ i ∈ imports, ∀ n ∈ (destination ⟨i⟩ (start base output)).names, ' ' ∉ n.toList) ∧
    ((∀ i ∈ imports, ' ' ∉ i.toList ∧ '\n' ∉ i.toList) →
      '\n' ∉ (write output deps).toList ∧ dependencies? output (write output deps) = some deps) := by
  intro imports deps
  obtain ⟨hbaseSpace, houtputSpace⟩ := hfree ' ' (Or.inl rfl)
  obtain ⟨hbaseLine, houtputLine⟩ := hfree '\n' (Or.inr rfl)
  have hne : deps ≠ [] := by simpa [deps, resolve] using himports
  have hline : '\n' ∉ (write output deps).toList ↔ ∀ d ∈ deps, '\n' ∉ d.text.toList := by
    rw [mem_write_iff output deps (by decide) (by decide), or_iff_right houtputLine]
    simp
  have hread := dependencies?_write_iff output hne
  refine ⟨hline.trans (mem_resolve_iff (by decide) (by decide)),
    hread.trans (mem_resolve_iff (by decide) (by decide)), fun hspecifiers => ⟨?_, ?_⟩⟩
  · apply hline.mpr
    exact not_mem_of_mem_resolve (by decide) (by decide) hbaseLine houtputLine fun i hi => (hspecifiers i hi).2
  · apply hread.mpr
    exact not_mem_of_mem_resolve (by decide) (by decide) hbaseSpace houtputSpace fun i hi => (hspecifiers i hi).1

/-- A space in a specifier is no harm if it is resolved away. -/
theorem readable_without_spaced_directory :
    (∀ c, c = ' ' ∨ c = '\n' → c ∉ "/w".toList ∧ c ∉ "main.js".toList) ∧
      imports (SourceFile.ofText "main.ts" "import './a b/../c';") = ["./a b/../c.js"] ∧
      dependencies? ⟨"main.js"⟩ (write ⟨"main.js"⟩ (resolve ⟨"/w"⟩ ⟨"main.js"⟩ ["./a b/../c.js"])) =
        some (resolve ⟨"/w"⟩ ⟨"main.js"⟩ ["./a b/../c.js"]) := by
  have hfree : ∀ c, c = ' ' ∨ c = '\n' → c ∉ "/w".toList ∧ c ∉ "main.js".toList := by
    rintro c (rfl | rfl) <;> decide
  have himports : imports (SourceFile.ofText "main.ts" "import './a b/../c';") = ["./a b/../c.js"] := by
    decide +kernel
  have hne : imports (SourceFile.ofText "main.ts" "import './a b/../c';") ≠ [] := by
    rw [himports]
    exact List.cons_ne_nil _ _
  obtain ⟨-, hread, -⟩ := readable_iff "main.ts" "import './a b/../c';" ⟨"/w"⟩ ⟨"main.js"⟩ hfree hne
  rw [himports] at hread
  exact ⟨hfree, himports, hread.mpr (by decide +kernel)⟩

/-- Behind a backslash a string goes on over the end of a line, and the manifest then has two lines; a
space in a specifier makes two dependencies of one. -/
theorem specifiers_break_manifest :
    (∀ c, c = ' ' ∨ c = '\n' → c ∉ "/w".toList ∧ c ∉ "main.js".toList) ∧
      Path.isAbsolute ⟨"/w"⟩ = true ∧
      (imports (SourceFile.ofText "main.ts" "import './a\\\nb';") = ["./a\\\nb.js"] ∧
        '\n' ∈ (write ⟨"main.js"⟩ (resolve ⟨"/w"⟩ ⟨"main.js"⟩ ["./a\\\nb.js"])).toList) ∧
      imports (SourceFile.ofText "main.ts" "import './a b';") = ["./a b.js"] ∧
        dependencies? ⟨"main.js"⟩ (write ⟨"main.js"⟩ (resolve ⟨"/w"⟩ ⟨"main.js"⟩ ["./a b.js"])) ≠
          some (resolve ⟨"/w"⟩ ⟨"main.js"⟩ ["./a b.js"]) := by
  refine ⟨?_, by decide, ⟨?_, ?_⟩, ?_, ?_⟩
  · rintro c (rfl | rfl) <;> decide
  · decide +kernel
  · decide +kernel
  · decide +kernel
  · decide +kernel

end ModuleBuild.Manifest
