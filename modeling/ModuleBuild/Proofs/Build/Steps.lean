import ModuleBuild.Build

/-!
# The steps of a build

A step of a build is run on a session and gives a result and the session behind it. `exec_bind` takes
a sequence of steps apart, and there is one lemma for what each step does, so that nothing else needs
to look into the monad.

Main statements: `exec_bind`; `report_eq_ok_iff`, by which a report finds an error exactly if a diagnostic
with a location is one; and `chooseModule_fst`, by which the last module counts.
-/

namespace ModuleBuild

namespace Reporter

variable {W : Type} [Writer W]

/-- The answer about diagnostics that are all written is whether one with a location is an error. -/
theorem report_eq_ok_iff {r : Reporter W} {ds : List Diagnostic} {hasError : Bool}
    (h : (r.report ds).2 = .ok hasError) :
    hasError = true ↔ ∃ d ∈ ds, d.location.isSome = true ∧ d.severity = .error := by
  induction ds generalizing r hasError with
  | nil =>
    rw [report, Except.ok.injEq] at h
    simp [← h]
  | cons d ds ih =>
    rw [report] at h
    split at h
    · next hlocation =>
      rw [ih h]
      simp [hlocation]
    · next location hlocation =>
      split at h
      · cases h
      · next sink _ =>
        cases hrest : ({ r with sink } : Reporter W).report ds with
        | mk r' result =>
          rw [hrest] at h
          cases result with
          | error e => cases h
          | ok b =>
            have hb := @ih { r with sink } b (by rw [hrest])
            have hor : (d.severity.isError || b) = hasError := by simpa [Except.map] using h
            rw [← hor, Bool.or_eq_true, Severity.isError_iff, hb]
            simp [hlocation]

end Reporter

namespace Build

variable {W α β : Type}

/-- Runs a step on a session. -/
def exec (x : Build W α) (s : Session W) : Except Failure α × Session W := (ExceptT.run x).run s

/-- A step and the steps behind it: a failure of the step ends all. -/
theorem exec_bind (x : Build W α) (f : α → Build W β) (s : Session W) :
    exec (x >>= f) s =
      match exec x s with
      | (.ok a, s') => exec (f a) s'
      | (.error e, s') => (.error e, s') := by
  show (ExceptT.run (x >>= f)).run s = _
  rw [ExceptT.run_bind, StateT.run_bind]
  show _ = match (ExceptT.run x).run s with
      | (.ok a, s') => exec (f a) s'
      | (.error e, s') => (.error e, s')
  cases h : (ExceptT.run x).run s with
  | mk result s' => cases result <;> rfl

theorem exec_note (events : List Event) (s : Session W) :
    exec (note events) s = (.ok (), { s with log := s.log ++ events }) := rfl

theorem exec_discard (x : Build W α) (s : Session W) :
    exec (discard x) s =
      match exec x s with
      | (.ok _, s') => (.ok (), s')
      | (.error e, s') => (.error e, s') := by
  have hbind : (discard x : Build W PUnit) = x >>= fun _ => pure () := by
    rw [Functor.discard, map_const]
    exact (bind_pure_comp _ _).symm
  rw [hbind, exec_bind]
  rfl

theorem exec_get (s : Session W) : exec (get : Build W (Session W)) s = (.ok s, s) := rfl

theorem exec_set (s' s : Session W) : exec (set s' : Build W Unit) s = (.ok (), s') := rfl

theorem exec_modify (f : Session W → Session W) (s : Session W) :
    exec (modify f : Build W Unit) s = (.ok (), f s) := rfl

/-! ## Single steps -/

/-- Building a program only adds to the log. -/
theorem exec_createProgram (engine : Engine) (request : Request) (s : Session W) :
    ∃ log, exec (createProgram engine request) s =
      ((engine.createProgram s.tree request.input request.engineOptions).1.mapError .engine,
        { s with log }) := by
  cases hcreated : engine.createProgram s.tree request.input request.engineOptions with
  | mk result events =>
    simp only [createProgram, exec_bind, exec_get, hcreated, exec_note]
    cases result with
    | ok program => exact ⟨_, rfl⟩
    | error e => exact ⟨_, rfl⟩

/-- Reporting changes the reporter, and fails with it. -/
theorem exec_report [Writer W] (ds : List Diagnostic) (s : Session W) :
    exec (report ds) s =
      ((s.reporter.report ds).2.mapError .report, { s with reporter := (s.reporter.report ds).1 }) := by
  cases hreport : s.reporter.report ds with
  | mk reporter result =>
    simp only [report, exec_bind, exec_get, hreport, exec_set]
    cases result with
    | ok hasError => rfl
    | error cause => rfl

theorem exec_makeDirectories (path : Path) (s : Session W) :
    exec (makeDirectories path) s =
      ((s.tree.makeDirectories path).2.elim (.ok ()) fun cause => .error (.makeDirectory path cause),
        { s with tree := (s.tree.makeDirectories path).1 }) := by
  cases hmake : s.tree.makeDirectories path with
  | mk tree result =>
    simp only [makeDirectories, exec_bind, exec_get, hmake, exec_set]
    cases result with
    | none => rfl
    | some cause => rfl

theorem exec_writeFile (failure : Path → IoError → Failure) (path : Path) (text : String)
    (s : Session W) :
    exec (writeFile failure path text) s =
      match s.tree.writeText path text with
      | .ok tree => (.ok (), { s with tree })
      | .error cause => (.error (failure path cause), s) := by
  simp only [writeFile, exec_bind, exec_get]
  cases s.tree.writeText path text with
  | ok tree => rfl
  | error cause => rfl

/-! ## Phases -/

/-- The check fails if a reported diagnostic is an error. -/
theorem exec_check [Writer W] (program : Program) (file : SourceFile) (request : Request)
    (s : Session W) :
    ∃ log, exec (check program file request) s =
      (match (s.reporter.report (program.check file)).2 with
        | .ok hasError => .ok (!hasError)
        | .error cause => .error (.report cause),
        { s with reporter := (s.reporter.report (program.check file)).1, log }) := by
  rw [check, exec_bind, exec_report]
  cases (s.reporter.report (program.check file)).2 with
  | error cause => exact ⟨s.log, rfl⟩
  | ok hasError =>
    cases hasError with
    | true => exact ⟨_, rfl⟩
    | false => exact ⟨_, rfl⟩

theorem exec_writeManifest (request : Request) (imports : List String) (s : Session W) :
    ∃ log, exec (writeManifest request imports) s =
      match s.tree.writeText (request.resolve (Manifest.path request.output))
          (Manifest.write request.output
            (Manifest.resolve request.base request.output imports)) with
      | .ok tree => (.ok (), { s with tree, log })
      | .error cause =>
        (.error (.writeManifest (request.resolve (Manifest.path request.output)) cause),
          { s with log }) := by
  simp only [writeManifest, exec_bind, exec_writeFile]
  cases s.tree.writeText (request.resolve (Manifest.path request.output)) (Manifest.write
    request.output (Manifest.resolve request.base request.output imports)) with
  | ok tree => exact ⟨_, rfl⟩
  | error cause => exact ⟨s.log, rfl⟩

theorem exec_writeOutput (request : Request) (file : EmittedFile) (s : Session W) :
    ∃ log, exec (writeOutput request file) s =
      match s.tree.writeText (request.resolve request.output) file.text with
      | .ok tree => (.ok (), { s with tree, log })
      | .error cause =>
        (.error (.writeOutput (request.resolve request.output) cause), { s with log }) := by
  cases hsame : file.name.sameAs request.output with
  | true =>
    simp only [writeOutput, hsame, if_true, exec_bind, exec_writeFile]
    cases s.tree.writeText (request.resolve request.output) file.text with
    | ok tree => exact ⟨_, rfl⟩
    | error cause => exact ⟨s.log, rfl⟩
  | false =>
    simp only [writeOutput, hsame, Bool.false_eq_true, if_false, exec_bind, exec_note, exec_writeFile]
    cases s.tree.writeText (request.resolve request.output) file.text with
    | ok tree => exact ⟨_, rfl⟩
    | error cause => exact ⟨_, rfl⟩

/-- The last module counts. -/
theorem chooseModule_fst (chosen : Option EmittedFile) (files : List EmittedFile) :
    (chooseModule chosen files).1 = ((files.filter isModule).getLast?).or chosen := by
  induction files generalizing chosen with
  | nil => simp [chooseModule]
  | cons file files ih =>
    by_cases hmodule : isModule file = true
    · rw [chooseModule, if_pos hmodule, List.filter_cons_of_pos hmodule]
      show (chooseModule (some file) files).1 = _
      rw [ih, List.getLast?_cons]
      cases (files.filter isModule).getLast? <;> rfl
    · rw [chooseModule, if_neg hmodule, List.filter_cons_of_neg hmodule]
      exact ih chosen

end Build

end ModuleBuild
