import ModuleBuild.Proofs.Build.Steps
import ModuleBuild.Proofs.FileTree.Files

/-!
# What a build leaves behind

A build intends a list of effects: it makes the directory of the output, it writes the manifest, and
it writes the module. `Ends` lists the ways in which a build can end. Each of them says how far the
build has come, so that the files behind it are the files before it with the first effects of the
list done and with nothing else changed. Only where a directory cannot be made is one effect left
half done.

Main statement: `compile_ends`, which also says when a build answers that the check has failed.
-/

namespace ModuleBuild

open FileTree

/-! ## Effects -/

/-- A change of a file tree. -/
inductive Effect where
  /-- A directory, and the directories on the way to it that are not there. -/
  | directories (path : Path)
  /-- A file with a text. -/
  | file (path : Path) (text : String)

namespace Effect

/-- The second tree is the first one with the effect done and nothing else changed. -/
def Done : Effect → FileTree → FileTree → Prop
  | directories path, t, u =>
    Grown (· ∈ t.placesOn path) t u ∧ ∀ place ∈ t.placesOn path, u.node? place = some .directory
  | file path text, t, u =>
    ∃ place, t.target path = .ok (some place) ∧ u.workingDirectory = t.workingDirectory ∧
      u.node? place = some (.file text.toUTF8) ∧ ∀ other ≠ place, u.node? other = t.node? other

/-- The second tree is the first one with the effects done in order. -/
def AllDone : List Effect → FileTree → FileTree → Prop
  | [], t, u => u = t
  | e :: es, t, u => ∃ mid, e.Done t mid ∧ AllDone es mid u

theorem AllDone.append {es fs : List Effect} {t u v : FileTree} (h₁ : AllDone es t u)
    (h₂ : AllDone fs u v) : AllDone (es ++ fs) t v := by
  induction es generalizing t with
  | nil =>
    obtain rfl : u = t := h₁
    exact h₂
  | cons e es ih =>
    obtain ⟨mid, he, hes⟩ := h₁
    exact ⟨mid, he, ih hes⟩

theorem done_of_makeDirectories {t u : FileTree} {path : Path}
    (h : t.makeDirectories path = (u, none)) : (directories path).Done t u := by
  have hgrown := grown_makeDirectories t path
  have hplaces := node?_makeDirectories (t := t) (p := path) (by rw [h])
  rw [h] at hgrown hplaces
  exact ⟨hgrown, hplaces⟩

theorem done_of_writeText {t u : FileTree} {path : Path} {text : String}
    (h : t.writeText path text = .ok u) : (file path text).Done t u := by
  obtain ⟨-, place, htarget, hfree, rfl⟩ := writeText_eq_ok_iff.mp h
  have hadmits := admits_of_target htarget hfree (.file text.toUTF8)
  exact ⟨place, htarget, workingDirectory_put .., node?_put_self hadmits,
    fun _ ho => node?_put_of_ne ho _⟩

end Effect

namespace Build

open Effect

/-! ## What a build intends -/

/-- The directory of the output. -/
def directoryEffect (request : Request) : Effect :=
  .directories (request.resolve request.outputDir)

/-- The manifest, if it is asked for and the file imports something. -/
def manifestEffects (request : Request) (file : SourceFile) : List Effect :=
  if request.createDeps && !(Manifest.imports file).isEmpty then
    [.file (request.resolve (Manifest.path request.output)) (Manifest.write request.output
      (Manifest.resolve request.base request.output (Manifest.imports file)))]
  else []

/-- The last module that is emitted, under the name that the request gives. -/
def outputEffects (request : Request) (emission : Emission) : List Effect :=
  match (emission.outputs.filter isModule).getLast? with
  | some emitted => [.file (request.resolve request.output) emitted.text]
  | none => []

/-- All that a build intends. -/
def effects (request : Request) (file : SourceFile) (emission : Emission) : List Effect :=
  directoryEffect request :: (manifestEffects request file ++ outputEffects request emission)

/-! ## How a build can end -/

variable {W : Type} [Writer W]

/-- The engine builds a program that has the input. -/
structure Loads (engine : Engine) (request : Request) (t : FileTree) (program : Program)
    (file : SourceFile) : Prop where
  created : (engine.createProgram t request.input request.engineOptions).1 = .ok program
  found : program.sourceFile? request.input = some file

/-- The reporter behind the check, and whether the check has found an error. -/
def checked (request : Request) (program : Program) (file : SourceFile) (r : Reporter W) :
    Reporter W × Except IoError Bool :=
  if request.check then (r.addSource file).report (program.check file)
  else (r.addSource file, .ok false)

/-- How compiling a checked file can end: the failure, if there is one, and the files behind it. -/
inductive EmitEnds (request : Request) (file : SourceFile) (emission : Emission) (r : Reporter W)
    (t : FileTree) : Option Failure → FileTree → Prop where
  /-- Some of the directories may be made. -/
  | directoryFailed {u : FileTree} {cause : IoError}
    (hfailed : t.makeDirectories (request.resolve request.outputDir) = (u, some cause))
    (hgrown : Grown (· ∈ t.placesOn (request.resolve request.outputDir)) t u) :
    EmitEnds request file emission r t
      (some (.makeDirectory (request.resolve request.outputDir) cause)) u
  /-- The directories are made. -/
  | manifestFailed {u : FileTree} {path : Path} {text : String} {cause : IoError}
    (hmanifest : manifestEffects request file = [.file path text])
    (hfailed : u.writeText path text = .error cause)
    (hdone : AllDone [directoryEffect request] t u) :
    EmitEnds request file emission r t (some (.writeManifest path cause)) u
  /-- The directories are made, and the manifest is written if it is to be. -/
  | outputFailed {u : FileTree} {path : Path} {text : String} {cause : IoError}
    (houtput : outputEffects request emission = [.file path text])
    (hfailed : u.writeText path text = .error cause)
    (hdone : AllDone (directoryEffect request :: manifestEffects request file) t u) :
    EmitEnds request file emission r t (some (.writeOutput path cause)) u
  /-- All is done, but the diagnostics of emitting cannot be written. -/
  | unreported {u : FileTree} {cause : IoError}
    (hfailed : (r.report emission.diagnostics).2 = .error cause)
    (hdone : AllDone (effects request file emission) t u) :
    EmitEnds request file emission r t (some (.report cause)) u
  /-- All is done. -/
  | done {u : FileTree} {hasError : Bool}
    (hreported : (r.report emission.diagnostics).2 = .ok hasError)
    (hdone : AllDone (effects request file emission) t u) :
    EmitEnds request file emission r t none u

/-- How a build can end: its result and the files behind it. -/
inductive Ends (engine : Engine) (request : Request) (s : Session W) :
    Except Failure Bool → FileTree → Prop where
  | engineFailed {e : Engine.Error}
    (hfailed : (engine.createProgram s.tree request.input request.engineOptions).1 = .error e) :
    Ends engine request s (.error (.engine e)) s.tree
  | sourceMissing {program : Program}
    (hcreated : (engine.createProgram s.tree request.input request.engineOptions).1 = .ok program)
    (hmissing : program.sourceFile? request.input = none) :
    Ends engine request s (.error (.missingSourceFile request.input)) s.tree
  | checkUnreported {program : Program} {file : SourceFile} {cause : IoError}
    (hloads : Loads engine request s.tree program file)
    (hfailed : (checked request program file s.reporter).2 = .error cause) :
    Ends engine request s (.error (.report cause)) s.tree
  | checkFailed {program : Program} {file : SourceFile}
    (hloads : Loads engine request s.tree program file)
    (hchecked : (checked request program file s.reporter).2 = .ok true) :
    Ends engine request s (.ok false) s.tree
  | notEmitted {program : Program} {file : SourceFile}
    (hloads : Loads engine request s.tree program file)
    (hchecked : (checked request program file s.reporter).2 = .ok false)
    (hemit : request.emit = false) :
    Ends engine request s (.ok true) s.tree
  | emitted {program : Program} {file : SourceFile} {failure? : Option Failure} {u : FileTree}
    (hloads : Loads engine request s.tree program file)
    (hchecked : (checked request program file s.reporter).2 = .ok false)
    (hemit : request.emit = true)
    (hends : EmitEnds request file (program.emit file) (checked request program file s.reporter).1
      s.tree failure? u) :
    Ends engine request s (failure?.elim (.ok true) .error) u

/-! ## Emitting -/

/-- Writes the module and reports what is to be said about it. -/
def emitOutputs (request : Request) (emission : Emission) : Build W Unit := do
  let (module?, events) := chooseModule none emission.outputs
  note events
  match module? with
  | some emitted => writeOutput request emitted
  | none => note [.nothingEmitted request.input emission.skipped]
  discard <| report emission.diagnostics

theorem emit_eq (program : Program) (file : SourceFile) (request : Request) :
    (emit program file request : Build W Unit) = (do
      makeDirectories (request.resolve request.outputDir)
      if request.createDeps && !(Manifest.imports file).isEmpty then
        writeManifest request (Manifest.imports file)
        emitOutputs request (program.emit file)
      else emitOutputs request (program.emit file)) := rfl

variable {request : Request} {file : SourceFile} {emission : Emission} {t : FileTree} {s : Session W}

/-- Behind the last effect the diagnostics are reported. -/
theorem exec_report_emission (hdone : AllDone (effects request file emission) t s.tree) :
    ∃ failure? s', exec (discard (report emission.diagnostics) : Build W Unit) s =
        (failure?.elim (.ok ()) .error, s') ∧
      EmitEnds request file emission s.reporter t failure? s'.tree := by
  rw [exec_discard, exec_report]
  cases hreport : (s.reporter.report emission.diagnostics).2 with
  | ok hasError => exact ⟨none, _, rfl, .done hreport hdone⟩
  | error cause => exact ⟨some (.report cause), _, rfl, .unreported hreport hdone⟩

/-- Behind the manifest the module is written. -/
theorem exec_emitOutputs
    (hdone : AllDone (directoryEffect request :: manifestEffects request file) t s.tree) :
    ∃ failure? s', exec (emitOutputs request emission : Build W Unit) s =
        (failure?.elim (.ok ()) .error, s') ∧
      EmitEnds request file emission s.reporter t failure? s'.tree := by
  have hchoose : (chooseModule none emission.outputs).1 =
      (emission.outputs.filter isModule).getLast? := by
    rw [chooseModule_fst, Option.or_none]
  simp only [emitOutputs, exec_bind, exec_note, hchoose]
  cases hmodule : (emission.outputs.filter isModule).getLast? with
  | none =>
    have houtput : outputEffects request emission = [] := by rw [outputEffects, hmodule]
    have hall : AllDone (effects request file emission) t s.tree := by
      rw [effects, houtput, List.append_nil]
      exact hdone
    simp only [exec_bind, exec_note]
    exact exec_report_emission (s := { s with log := _ }) hall
  | some emitted =>
    have houtput : outputEffects request emission =
        [.file (request.resolve request.output) emitted.text] := by rw [outputEffects, hmodule]
    obtain ⟨log, hwritten⟩ := exec_writeOutput request emitted
      { s with log := s.log ++ (chooseModule none emission.outputs).2 }
    simp only [exec_bind, hwritten]
    cases hwrite : s.tree.writeText (request.resolve request.output) emitted.text with
    | ok tree =>
      have hall : AllDone (effects request file emission) t tree := by
        rw [effects, houtput, ← List.cons_append]
        exact hdone.append ⟨tree, done_of_writeText hwrite, rfl⟩
      exact exec_report_emission (s := { s with tree, log }) hall
    | error cause => exact ⟨some _, _, rfl, .outputFailed houtput hwrite hdone⟩

/-- Emitting makes the directories first, and then writes the manifest. -/
theorem exec_emit (program : Program) (file : SourceFile) (request : Request) (s : Session W) :
    ∃ failure? s', exec (emit program file request : Build W Unit) s =
        (failure?.elim (.ok ()) .error, s') ∧
      EmitEnds request file (program.emit file) s.reporter s.tree failure? s'.tree := by
  rw [emit_eq, exec_bind, exec_makeDirectories]
  cases hmake : s.tree.makeDirectories (request.resolve request.outputDir) with
  | mk tree result =>
    cases result with
    | some cause =>
      have hgrown := grown_makeDirectories s.tree (request.resolve request.outputDir)
      rw [hmake] at hgrown
      exact ⟨some _, _, rfl, .directoryFailed hmake hgrown⟩
    | none =>
      have hdirectory : (directoryEffect request).Done s.tree tree := done_of_makeDirectories hmake
      simp only [Option.elim_none]
      by_cases hdeps : (request.createDeps && !(Manifest.imports file).isEmpty) = true
      · have hmanifest : manifestEffects request file = _ := if_pos hdeps
        obtain ⟨log, hwritten⟩ :=
          exec_writeManifest request (Manifest.imports file) { s with tree }
        rw [if_pos hdeps, exec_bind, hwritten]
        cases hwrite : tree.writeText (request.resolve (Manifest.path request.output))
            (Manifest.write request.output
              (Manifest.resolve request.base request.output (Manifest.imports file))) with
        | ok tree' =>
          refine exec_emitOutputs (s := { s with tree := tree', log }) ?_
          rw [hmanifest]
          exact ⟨tree, hdirectory, tree', done_of_writeText hwrite, rfl⟩
        | error cause =>
          exact ⟨some _, _, rfl, .manifestFailed hmanifest hwrite ⟨tree, hdirectory, rfl⟩⟩
      · have hmanifest : manifestEffects request file = [] := if_neg hdeps
        rw [if_neg hdeps]
        refine exec_emitOutputs (s := { s with tree }) ?_
        rw [hmanifest]
        exact ⟨tree, hdirectory, rfl⟩

/-! ## Compiling -/

variable {engine : Engine} {program : Program}

/-- Behind the check the file is compiled if it has passed. -/
theorem ends_of_checked (s' : Session W) (passed : Bool)
    (hloads : Loads engine request s.tree program file)
    (hchecked : (checked request program file s.reporter).2 = .ok !passed)
    (hreporter : s'.reporter = (checked request program file s.reporter).1)
    (htree : s'.tree = s.tree) {r : Except Failure Bool × Session W}
    (hr : exec (if passed && request.emit then do
        emit program file request
        return passed
      else return passed : Build W Bool) s' = r) :
    Ends engine request s r.1 r.2.tree := by
  subst hr
  cases passed with
  | false =>
    show Ends engine request s (.ok false) s'.tree
    rw [htree]
    exact .checkFailed hloads hchecked
  | true =>
    cases hemit : request.emit with
    | false =>
      show Ends engine request s (.ok true) s'.tree
      rw [htree]
      exact .notEmitted hloads hchecked hemit
    | true =>
      obtain ⟨failure?, s'', hexec, hends⟩ := exec_emit program file request s'
      rw [hreporter, htree] at hends
      have hemitted := Ends.emitted hloads hchecked hemit hends
      simp only [Bool.and_self, if_true, exec_bind, hexec]
      cases failure? with
      | none => exact hemitted
      | some failure => exact hemitted

/-- A build ends in one of the ways listed. -/
theorem ends_compile (engine : Engine) (request : Request) (s : Session W) :
    Ends engine request s (s.compile engine request).1 (s.compile engine request).2.tree := by
  show Ends engine request s (exec (compile engine request) s).1 (exec (compile engine request) s).2.tree
  obtain ⟨log, hcreate⟩ := exec_createProgram engine request s
  rw [compile, exec_bind, hcreate]
  cases hcreated : (engine.createProgram s.tree request.input request.engineOptions).1 with
  | error e => exact .engineFailed hcreated
  | ok program =>
    simp only [Except.mapError]
    cases hfound : program.sourceFile? request.input with
    | none => exact .sourceMissing hcreated hfound
    | some file =>
      have hloads : Loads engine request s.tree program file := ⟨hcreated, hfound⟩
      simp only [exec_bind, exec_modify, exec_note]
      cases hcheck : request.check with
      | false =>
        have hchecked : checked request program file s.reporter =
            (s.reporter.addSource file, .ok false) := by simp [checked, hcheck]
        exact ends_of_checked { s with reporter := s.reporter.addSource file, log := _ } true hloads
          (by rw [hchecked]; rfl) (by rw [hchecked]) rfl rfl
      | true =>
        have hchecked : checked request program file s.reporter =
            (s.reporter.addSource file).report (program.check file) := by simp [checked, hcheck]
        simp only [if_true, exec_bind]
        obtain ⟨log', hexec⟩ := exec_check program file request
          { s with reporter := s.reporter.addSource file, log := _ }
        rw [hexec]
        cases hreport : ((s.reporter.addSource file).report (program.check file)).2 with
        | error cause => exact .checkUnreported hloads (by rw [hchecked, hreport])
        | ok hasError =>
          exact ends_of_checked { s with reporter := _, log := log' } (!hasError) hloads
            (by rw [hchecked, hreport, Bool.not_not]) (by rw [hchecked]) rfl rfl

/-! ## The answer -/

theorem Loads.unique {program' : Program} {file' : SourceFile}
    (h : Loads engine request t program file) (h' : Loads engine request t program' file') :
    program' = program ∧ file' = file := by
  obtain rfl : program' = program := Except.ok.inj (h'.created.symm.trans h.created)
  exact ⟨rfl, Option.some.inj (h'.found.symm.trans h.found)⟩

/-- A build answers that the check has failed exactly if the check has found an error. -/
theorem Ends.eq_false_iff {result : Except Failure Bool} {u : FileTree}
    (h : Ends engine request s result u) :
    result = .ok false ↔ ∃ program file, Loads engine request s.tree program file ∧
      (checked request program file s.reporter).2 = .ok true := by
  constructor
  · rintro rfl
    generalize hr : (Except.ok false : Except Failure Bool) = result at h
    cases h with
    | checkFailed hloads hchecked => exact ⟨_, _, hloads, hchecked⟩
    | emitted _ _ _ hends => cases hends <;> cases hr
    | _ => cases hr
  · rintro ⟨program, file, hloads, hchecked⟩
    cases h with
    | checkFailed => rfl
    | engineFailed hfailed =>
      rw [hloads.created] at hfailed
      cases hfailed
    | sourceMissing hcreated hmissing =>
      obtain rfl := Except.ok.inj (hcreated.symm.trans hloads.created)
      rw [hloads.found] at hmissing
      cases hmissing
    | checkUnreported hloads' hfailed | notEmitted hloads' hfailed _ | emitted hloads' hfailed _ _ =>
      obtain ⟨rfl, rfl⟩ := hloads.unique hloads'
      rw [hchecked] at hfailed
      cases hfailed

/-- The check has found an error exactly if it is on, all its diagnostics can be written, and one of
them with a location is an error. -/
theorem checked_eq_true_iff (request : Request) (program : Program) (file : SourceFile)
    (r : Reporter W) :
    (checked request program file r).2 = .ok true ↔
      request.check = true ∧
        (∃ hasError, ((r.addSource file).report (program.check file)).2 = .ok hasError) ∧
        ∃ d ∈ program.check file, d.location.isSome = true ∧ d.severity = .error := by
  rw [checked]
  cases request.check with
  | false => simp
  | true =>
    simp only [if_true, true_and]
    constructor
    · intro h
      exact ⟨⟨true, h⟩, (Reporter.report_eq_ok_iff h).mp rfl⟩
    · rintro ⟨⟨hasError, h⟩, hd⟩
      rw [h, (Reporter.report_eq_ok_iff h).mpr hd]

end Build

/-- A build ends in one of the ways of `Ends`, which says for each of them what is done of its effects
and that nothing else has changed. It answers that the check has failed exactly if the check is on and
reports all its diagnostics, and one of them with a location is an error.

The files are those of a file tree: there are no links, and a write that fails leaves the file as it was. -/
theorem compile_ends {W : Type} [Writer W] (engine : Engine) (request : Request) (s : Session W) :
    Build.Ends engine request s (s.compile engine request).1 (s.compile engine request).2.tree ∧
      ((s.compile engine request).1 = .ok false ↔
        ∃ program file, Build.Loads engine request s.tree program file ∧ request.check = true ∧
          (∃ hasError,
            ((s.reporter.addSource file).report (program.check file)).2 = .ok hasError) ∧
          ∃ d ∈ program.check file, d.location.isSome = true ∧ d.severity = .error) := by
  have hends := Build.ends_compile engine request s
  refine ⟨hends, ?_⟩
  rw [hends.eq_false_iff]
  exact exists_congr fun program => exists_congr fun file =>
    and_congr_right fun _ => Build.checked_eq_true_iff request program file s.reporter

end ModuleBuild
