import ModuleBuild.Proofs.Build.Sources
import ModuleBuild.Proofs.FileTree.Settled

/-!
# Building twice

What a build writes depends on the text of the input and on the request only. So as long as neither the
output nor the manifest is the input itself, a second build on the files behind a successful one reads
the same text, comes to the same verdict and reports it in the same words. All it would write is there
already, so it leaves the files exactly as they are.

A failed check is a success in this sense: it writes nothing, and says so again.

Main statements: `Build.performAll_effects_again` and `compile_again`.
-/

namespace ModuleBuild

open FileTree Effect

/-! ## Reports to a writer that works -/

/-- The writer behind the texts. -/
def Writer.writeAll {W : Type} [Writer W] (w : W) (texts : List String) : W :=
  texts.foldl (fun w text => (write w text).1) w

namespace Reporter

variable {W : Type} {r r' : Reporter W}

/-- What is written for the diagnostics that have a location. -/
def texts (r : Reporter W) (ds : List Diagnostic) : List String :=
  ds.filterMap fun d => d.location.map (r.written d)

theorem style_addSource (r : Reporter W) (file : SourceFile) : (r.addSource file).style = r.style := by
  rw [addSource]
  split <;> rfl

/-- A reporter whose writer works has written the texts of all diagnostics. -/
theorem sink_report [Writer W] (h : Writer.Works r.sink) (ds : List Diagnostic) :
    (r.report ds).1.sink = Writer.writeAll r.sink (r.texts ds) := by
  induction ds generalizing r with
  | nil => rfl
  | cons d ds ih =>
    cases hlocation : d.location with
    | none =>
      have htexts : r.texts (d :: ds) = r.texts ds := by simp [texts, hlocation]
      rw [report, hlocation, htexts]
      exact ih h
    | some location =>
      have htexts : r.texts (d :: ds) = r.written d location :: r.texts ds := by simp [texts, hlocation]
      obtain ⟨hwrite, hworks⟩ := h.write (r.written d location)
      cases hresult : Writer.write r.sink (r.written d location) with
      | mk sink result =>
        rw [hresult] at hwrite hworks
        obtain rfl : result = .ok () := hwrite
        rw [report, hlocation, htexts, Writer.writeAll, List.foldl_cons]
        simp only [hresult]
        exact ih (r := { r with sink }) hworks

/-- What is written for a diagnostic of a file whose text has just been added depends on the style. -/
theorem texts_addSource (hstyle : r'.style = r.style) {file : SourceFile} {ds : List Diagnostic}
    (hfile : ∀ d ∈ ds, ∀ l ∈ d.location, l.file = file.name) :
    (r'.addSource file).texts ds = (r.addSource file).texts ds := by
  refine List.filterMap_congr fun d hd => Option.map_congr fun l hl => ?_
  rw [written, written, style_addSource, style_addSource, hstyle, addSource, addSource, hstyle,
    hfile d hd l hl]
  cases r.style with
  | plain => rfl
  | pretty color => simp

end Reporter

namespace LexicalProgram

/-- What the lexical engine reports about a file is in that file. -/
theorem file_of_mem_check {p : LexicalProgram} {file : SourceFile} (hname : p.file.name = file.name)
    (hlocated : ∀ d ∈ p.diagnostics, ∀ l ∈ d.location, l.file = p.file.name) :
    ∀ d ∈ p.check file, ∀ l ∈ d.location, l.file = file.name := by
  intro d hd l hl
  rw [check] at hd
  split at hd
  · exact (hlocated d hd l hl).trans hname
  · cases hd

end LexicalProgram

namespace Build

variable {W : Type} {request : Request} {file : SourceFile} {emission : Emission} {t u v : FileTree}

/-! ## Effects that are done already -/

theorem performAll_of_forall {es : List Effect} (h : ∀ e ∈ es, e.perform t = .ok t) :
    performAll es t = .ok t := by
  induction es with
  | nil => rfl
  | cons e es ih =>
    exact performAll_cons_eq_ok_iff.mpr
      ⟨t, h e (List.mem_cons_self ..), ih fun e' he' => h e' (List.mem_cons_of_mem _ he')⟩

/-- The manifest and the output are different files, so all effects of a build can be done again. -/
theorem performAll_effects_again (h : performAll (effects request file emission) t = .ok u) :
    performAll (effects request file emission) u = .ok u := by
  obtain ⟨made, hmake, hfiles⟩ := performAll_cons_eq_ok_iff.mp h
  obtain ⟨written, hmanifest, houtput⟩ := performAll_append_eq_ok_iff.mp hfiles
  have hkeeps := keepsDirectories_of_performAll houtput
  have hmanifestPlace := node?_of_performAll_outputEffects houtput
  refine performAll_of_forall fun e he => ?_
  rw [effects, List.mem_cons, List.mem_append] at he
  rcases he with rfl | he | he
  · have hmake' := perform_directories_eq_ok_iff.mp hmake
    exact perform_directories_eq_ok_iff.mpr
      (makeDirectories_again hmake' (keepsDirectories_of_performAll hfiles))
  · rw [manifestEffects] at hmanifest he
    split at he
    · next hdeps =>
      obtain rfl := List.mem_singleton.mp he
      rw [if_pos hdeps] at hmanifest
      obtain ⟨w, hwrite, hw⟩ := performAll_cons_eq_ok_iff.mp hmanifest
      obtain rfl := Except.ok.inj hw
      refine writeText_again hwrite hkeeps ?_
      have hreach := reach_congr (keepsDirectories_of_writeText hwrite).workingDirectory
        (Manifest.location request.base request.output)
      have hnode := (node?_of_writeText hwrite).1
      rw [hreach] at hmanifestPlace
      exact hmanifestPlace.trans hnode
    · cases he
  · rw [outputEffects] at houtput he
    split at he
    · next emitted hmodule =>
      obtain rfl := List.mem_singleton.mp he
      simp only [hmodule] at houtput
      obtain ⟨w, hwrite, hw⟩ := performAll_cons_eq_ok_iff.mp houtput
      obtain rfl := Except.ok.inj hw
      exact writeText_again hwrite (.refl _) (node?_of_writeText hwrite).1
    · cases he

end Build

/-! ## What is read again -/

/-- The two paths lead to the same place. -/
def FileTree.SamePlace (t : FileTree) (p q : Path) : Prop :=
  ∃ place, t.locate p = .ok place ∧ t.locate q = .ok place

theorem FileTree.not_samePlace {t : FileTree} {p q : Path} (h : t.locate p ≠ t.locate q) :
    ¬t.SamePlace p q := by
  rintro ⟨place, hp, hq⟩
  exact h (hp.trans hq.symm)

/-- A text stays as it is if no effect leads to its place. -/
theorem Effect.readText_of_performAll {es : List Effect} {t u : FileTree} {p : Path} {text : String}
    (h : performAll es t = .ok u) (htext : t.readText p = .ok text)
    (hapart : ∀ path out, .file path out ∈ es → ¬u.SamePlace path p) : u.readText p = .ok text := by
  induction es generalizing t with
  | nil =>
    obtain rfl := Except.ok.inj h
    exact htext
  | cons e es ih =>
    obtain ⟨mid, he, hes⟩ := performAll_cons_eq_ok_iff.mp h
    refine ih hes ?_ fun path out hmem => hapart path out (List.mem_cons_of_mem _ hmem)
    rw [readText_eq_ok_iff, readBytes_eq_ok_iff] at htext ⊢
    obtain ⟨place, hlocate, hnode⟩ := htext
    have hkeeps := keepsDirectories_of_perform he
    refine ⟨place, hkeeps.locate hlocate, ?_⟩
    cases e with
    | directories path =>
      have hgrown := grown_makeDirectories t path
      rw [perform_directories_eq_ok_iff.mp he] at hgrown
      exact (hgrown.node?_eq_file_iff place _).mpr hnode
    | file path out =>
      have hne : place ≠ t.reach path := by
        rintro rfl
        obtain ⟨hslash, target, htarget, -⟩ := writeText_eq_ok_iff.mp he
        obtain rfl := target_eq_reach htarget
        have hall := hkeeps.trans (keepsDirectories_of_performAll hes)
        exact hapart path out (List.mem_cons_self ..)
          ⟨_, hall.locate (locate_of_target hslash htarget), hall.locate hlocate⟩
      exact ((node?_of_writeText he).2 place hne).trans hnode

namespace Build

variable {W : Type} [Writer W] {engine : Engine} {request : Request} {program : Program}
  {file : SourceFile} {s : Session W} {t u : FileTree}

/-- A text stays as it is if a build writes neither its output nor its manifest in its place. -/
theorem readText_of_performAll_effects {emission : Emission} {p : Path} {text : String}
    (hall : performAll (effects request file emission) t = .ok u) (htext : t.readText p = .ok text)
    (houtput : ¬u.SamePlace (request.resolve request.output) p)
    (hmanifest : ¬u.SamePlace (request.resolve (Manifest.path request.output)) p) :
    u.readText p = .ok text := by
  refine Effect.readText_of_performAll hall htext fun path out hmem => ?_
  rcases file_mem_effects hmem with rfl | ⟨rfl, -⟩
  · exact hmanifest
  · exact houtput

/-! ## Running a build again -/

/-- What a build does behind the check. -/
def finish (program : Program) (file : SourceFile) (request : Request) (passed : Bool) :
    Build W Bool :=
  if passed && request.emit then do
    emit program file request
    return passed
  else return passed

/-- A build whose program is built comes to the end of its check with all files as they were. -/
theorem compile_of_loads (hloads : Loads engine request s.tree program file) {passed : Bool}
    (hchecked : (checked request program file s.reporter).2 = .ok !passed) :
    ∃ mid : Session W, mid.tree = s.tree ∧
      mid.reporter = (checked request program file s.reporter).1 ∧
      s.compile engine request = exec (finish program file request passed) mid := by
  show ∃ mid : Session W, _ ∧ _ ∧ exec (compile engine request) s = _
  obtain ⟨log, hcreate⟩ := exec_createProgram engine request s
  rw [compile, exec_bind, hcreate, hloads.created]
  simp only [Except.mapError, hloads.found, exec_bind, exec_modify, exec_note]
  cases hcheck : request.check with
  | false =>
    have heq : checked request program file s.reporter = (s.reporter.addSource file, .ok false) := by
      simp [checked, hcheck]
    rw [heq] at hchecked ⊢
    obtain rfl : passed = true := by simpa using hchecked
    exact ⟨{ s with reporter := s.reporter.addSource file, log := _ }, rfl, rfl, rfl⟩
  | true =>
    have heq : checked request program file s.reporter =
        (s.reporter.addSource file).report (program.check file) := by simp [checked, hcheck]
    rw [heq] at hchecked ⊢
    obtain ⟨log', hexec⟩ := exec_check program file request
      { s with reporter := s.reporter.addSource file, log := _ }
    simp only [if_true, exec_bind]
    rw [hexec, hchecked]
    simp only [Bool.not_not]
    exact ⟨{ s with reporter := _, log := log' }, rfl, rfl, rfl⟩

/-- If the module can be written and there is nothing to say about it, all that is emitted can. -/
theorem exec_emitOutputs_of_performAll {emission : Emission} (hsilent : emission.diagnostics = [])
    (hall : performAll (outputEffects request emission) s.tree = .ok u) :
    ∃ s', exec (emitOutputs request emission) s = (.ok (), s') ∧ s'.tree = u := by
  have hreport : ∀ s' : Session W, ∃ s'',
      exec (discard (report emission.diagnostics)) s' = (.ok (), s'') ∧ s''.tree = s'.tree := by
    intro s'
    rw [hsilent, exec_discard, exec_report]
    exact ⟨_, rfl, rfl⟩
  simp only [emitOutputs, exec_bind, exec_note, chooseModule_fst, Option.or_none]
  rw [outputEffects] at hall
  cases hmodule : (emission.outputs.filter isModule).getLast? with
  | none =>
    rw [hmodule] at hall
    obtain rfl := Except.ok.inj hall
    exact hreport _
  | some emitted =>
    simp only [hmodule] at hall
    obtain ⟨v, hwrite, hv⟩ := performAll_cons_eq_ok_iff.mp hall
    obtain rfl := Except.ok.inj hv
    obtain ⟨log, hexec⟩ := exec_writeOutput request emitted
      { s with log := s.log ++ (chooseModule none emission.outputs).2 }
    have hwritten : s.tree.writeText (request.resolve request.output) emitted.text = .ok v := hwrite
    rw [hwritten] at hexec
    simp only [exec_bind, hexec]
    exact hreport _

/-- If all effects can be done and there is nothing to say about emitting, it succeeds. -/
theorem exec_emit_of_performAll (hsilent : (program.emit file).diagnostics = [])
    (hall : performAll (effects request file (program.emit file)) s.tree = .ok u) :
    ∃ s', exec (emit program file request) s = (.ok (), s') ∧ s'.tree = u := by
  obtain ⟨made, hmake, hfiles⟩ := performAll_cons_eq_ok_iff.mp hall
  obtain ⟨written, hmanifest, houtput⟩ := performAll_append_eq_ok_iff.mp hfiles
  rw [emit_eq, exec_bind, exec_makeDirectories, perform_directories_eq_ok_iff.mp hmake]
  simp only [Option.elim_none]
  rw [manifestEffects] at hmanifest
  split at hmanifest
  · next hdeps =>
    obtain ⟨v, hwrite, hv⟩ := performAll_cons_eq_ok_iff.mp hmanifest
    obtain rfl := Except.ok.inj hv
    have hwritten :
        made.writeText (request.resolve (Manifest.path request.output)) _ = .ok v := hwrite
    obtain ⟨log, hexec⟩ := exec_writeManifest request (Manifest.imports file) { s with tree := made }
    rw [hwritten] at hexec
    rw [if_pos hdeps, exec_bind, hexec]
    exact exec_emitOutputs_of_performAll (s := { s with tree := v, log }) hsilent houtput
  · next hdeps =>
    obtain rfl := Except.ok.inj hmanifest
    rw [if_neg hdeps]
    exact exec_emitOutputs_of_performAll (s := { s with tree := made }) hsilent houtput

theorem keepsReporter_finish (hsilent : (program.emit file).diagnostics = []) (passed : Bool) :
    KeepsReporter (finish program file request passed : Build W Bool) := by
  rw [finish]
  split
  · exact (keepsReporter_emit hsilent).bind fun _ _ => rfl
  · exact fun _ => rfl

/-- If all that is to be done has been done, the end of a build changes nothing. -/
theorem exec_finish_of_performAll (hsilent : (program.emit file).diagnostics = []) {passed : Bool}
    (hall : (passed && request.emit) = true →
      performAll (effects request file (program.emit file)) s.tree = .ok s.tree) :
    ∃ s', exec (finish program file request passed) s = (.ok passed, s') ∧ s'.tree = s.tree := by
  rw [finish]
  split
  · next hemit =>
    obtain ⟨s', hexec, htree⟩ := exec_emit_of_performAll hsilent (hall hemit)
    rw [exec_bind, hexec]
    exact ⟨s', rfl, htree⟩
  · exact ⟨s, rfl, rfl⟩

/-- A build with an answer has come to the end of its check, and has done all its effects or none. -/
theorem exists_loads_of_compile {b : Bool} (h : (s.compile engine request).1 = .ok b) :
    ∃ program file, Loads engine request s.tree program file ∧
      (checked request program file s.reporter).2 = .ok !b ∧
      ((b && request.emit) = false → (s.compile engine request).2.tree = s.tree) ∧
      ((b && request.emit) = true → performAll (effects request file (program.emit file)) s.tree =
        .ok (s.compile engine request).2.tree) := by
  have hall : ∀ program file, Loads engine request s.tree program file → (b && request.emit) = true →
      performAll (effects request file (program.emit file)) s.tree =
        .ok (s.compile engine request).2.tree := by
    intro program file hloads hdone
    obtain ⟨rfl, hemit⟩ := Bool.and_eq_true_iff.mp hdone
    obtain ⟨program', file', hloads', hall⟩ := performAll_of_compile hemit h
    obtain ⟨rfl, rfl⟩ := hloads.unique hloads'
    exact hall
  have hends := ends_compile engine request s
  rw [h] at hends
  generalize hresult : (Except.ok b : Except Failure Bool) = result at hends
  generalize (s.compile engine request).2.tree = u at hends hall
  cases hends with
  | checkFailed hloads hchecked =>
    obtain rfl := Except.ok.inj hresult
    exact ⟨_, _, hloads, hchecked, fun _ => rfl, hall _ _ hloads⟩
  | notEmitted hloads hchecked hemit =>
    obtain rfl := Except.ok.inj hresult
    exact ⟨_, _, hloads, hchecked, fun _ => rfl, hall _ _ hloads⟩
  | @emitted _ _ failure? _ hloads hchecked hemit _ =>
    cases failure? with
    | some failure => cases hresult
    | none =>
      obtain rfl := Except.ok.inj hresult
      exact ⟨_, _, hloads, hchecked, fun hnone => absurd hnone (by simp [hemit]), hall _ _ hloads⟩
  | _ => cases hresult

section Checked

variable {r r' : Reporter W}

/-- With writers that work, the verdict does not depend on the reporter. -/
theorem checked_congr (hworks : Writer.Works r.sink) (hworks' : Writer.Works r'.sink) :
    (checked request program file r').2 = (checked request program file r).2 := by
  rw [checked, checked]
  split
  · rw [← Reporter.sink_addSource r file] at hworks
    rw [← Reporter.sink_addSource r' file] at hworks'
    obtain ⟨hasError, hreport⟩ := Reporter.exists_report_eq_ok hworks (program.check file)
    obtain ⟨hasError', hreport'⟩ := Reporter.exists_report_eq_ok hworks' (program.check file)
    rw [hreport, hreport', Except.ok.injEq, Bool.eq_iff_iff, Reporter.report_eq_ok_iff hreport',
      Reporter.report_eq_ok_iff hreport]
  · rfl

theorem sink_checked (hworks : Writer.Works r.sink) :
    (checked request program file r).1.sink = Writer.writeAll r.sink
      (if request.check then (r.addSource file).texts (program.check file) else []) := by
  rw [checked]
  split
  · rw [← Reporter.sink_addSource r file] at hworks ⊢
    exact Reporter.sink_report hworks _
  · exact Reporter.sink_addSource r file

end Checked

/-- The reporter behind a build is the one behind its check, if the engine has nothing to say about
emitting. -/
theorem reporter_compile_of_loads (hloads : Loads engine request s.tree program file) {passed : Bool}
    (hchecked : (checked request program file s.reporter).2 = .ok !passed)
    (hsilent : (program.emit file).diagnostics = []) :
    (s.compile engine request).2.reporter = (checked request program file s.reporter).1 := by
  obtain ⟨mid, -, hreporter, hcompile⟩ := compile_of_loads hloads hchecked
  rw [hcompile, ← hreporter]
  exact keepsReporter_finish hsilent passed mid

end Build

/-- A build with the lexical engine, on the files behind a build of the same request that had an answer,
has the same answer, changes no file and reports the same texts, if the writers work and neither the
output nor the manifest is the input. -/
theorem compile_again {W : Type} [Writer W] {base : Path} {request : Request} {s s' : Session W} {b : Bool}
    (hworks : Writer.Works s.reporter.sink) (hworks' : Writer.Works s'.reporter.sink)
    (hstyle : s'.reporter.style = s.reporter.style)
    (htree : s'.tree = (s.compile (Engine.lexical base) request).2.tree)
    (houtput : ¬s'.tree.SamePlace (request.resolve request.output) (base.join request.input))
    (hmanifest : ¬s'.tree.SamePlace (request.resolve (Manifest.path request.output))
      (base.join request.input))
    (h : (s.compile (Engine.lexical base) request).1 = .ok b) :
    (s'.compile (Engine.lexical base) request).1 = .ok b ∧
      (s'.compile (Engine.lexical base) request).2.tree = s'.tree ∧
      ∃ texts, (s.compile (Engine.lexical base) request).2.reporter.sink =
          Writer.writeAll s.reporter.sink texts ∧
        (s'.compile (Engine.lexical base) request).2.reporter.sink =
          Writer.writeAll s'.reporter.sink texts := by
  obtain ⟨program, file, hloads, hchecked, hnone, hall⟩ := Build.exists_loads_of_compile h
  rw [← htree] at hnone hall
  obtain ⟨text, htext, rfl, rfl⟩ := hloads.readText_eq_ok
  have hsilent := LexicalProgram.diagnostics_emit (request.lexicalProgram text)
    (SourceFile.ofText request.input.text text)
  -- The second build reads the same text.
  have htext' : s'.tree.readText (base.join request.input) = .ok text := by
    cases hdone : b && request.emit with
    | false => rwa [hnone hdone]
    | true => exact Build.readText_of_performAll_effects (hall hdone) htext houtput hmanifest
  have hloads' : Build.Loads (Engine.lexical base) request s'.tree
      (request.lexicalProgram text).toProgram (SourceFile.ofText request.input.text text) :=
    Build.loads_lexical base htext'
  have hchecked' := (Build.checked_congr hworks hworks').trans hchecked
  obtain ⟨mid, hmid, -, hcompile⟩ := Build.compile_of_loads hloads' hchecked'
  obtain ⟨last, hlast, hsame⟩ := Build.exec_finish_of_performAll (s := mid) hsilent fun hdone =>
    hmid ▸ Build.performAll_effects_again (hall hdone)
  have hfile : ∀ d ∈ (request.lexicalProgram text).check (SourceFile.ofText request.input.text text),
      ∀ l ∈ d.location, l.file = (SourceFile.ofText request.input.text text).name :=
    LexicalProgram.file_of_mem_check rfl (LexicalProgram.file_of_mem_diagnostics _ _ _)
  rw [Build.reporter_compile_of_loads hloads hchecked hsilent,
    Build.reporter_compile_of_loads hloads' hchecked' hsilent, hcompile, hlast]
  refine ⟨rfl, hsame.trans hmid, _, Build.sink_checked hworks, ?_⟩
  rw [Build.sink_checked hworks']
  exact congrArg (fun texts => Writer.writeAll s'.reporter.sink (if request.check then texts else []))
    (Reporter.texts_addSource hstyle hfile)

/-- The second build of a call has nothing left to do. -/
theorem compile_call_again :
    ∃ s s' : Session, Writer.Works s.reporter.sink ∧ Writer.Works s'.reporter.sink ∧
      s'.reporter.style = s.reporter.style ∧
      s'.tree = (s.compile (Engine.lexical ⟨""⟩) .withManifest).2.tree ∧
      s'.tree ≠ s.tree ∧
      ¬s'.tree.SamePlace ⟨"a.js"⟩ ⟨"a.ts"⟩ ∧ ¬s'.tree.SamePlace ⟨"a.js.d"⟩ ⟨"a.ts"⟩ ∧
      (s.compile (Engine.lexical ⟨""⟩) .withManifest).1 = .ok true ∧
      (s'.compile (Engine.lexical ⟨""⟩) .withManifest).1 = .ok true ∧
      (s'.compile (Engine.lexical ⟨""⟩) .withManifest).2.tree = s'.tree := by
  let s := Session.ofText "import './x';"
  let s' : Session := { (s.compile (Engine.lexical ⟨""⟩) .withManifest).2 with reporter := s.reporter }
  have hworks : Writer.Works s.reporter.sink := Sink.works rfl
  have houtput : ¬s'.tree.SamePlace (Request.withManifest.resolve Request.withManifest.output)
      (Path.join ⟨""⟩ Request.withManifest.input) := not_samePlace (by decide +kernel)
  have hmanifest : ¬s'.tree.SamePlace
      (Request.withManifest.resolve (Manifest.path Request.withManifest.output))
      (Path.join ⟨""⟩ Request.withManifest.input) := not_samePlace (by decide +kernel)
  have hresult : (s.compile (Engine.lexical ⟨""⟩) .withManifest).1 = .ok true := by decide +kernel
  have htree : s'.tree = (s.compile (Engine.lexical ⟨""⟩) .withManifest).2.tree := rfl
  have hworks' : Writer.Works s'.reporter.sink := hworks
  obtain ⟨hagain, hsame, -⟩ := compile_again hworks hworks' rfl htree houtput hmanifest hresult
  exact ⟨s, s', hworks, hworks, rfl, rfl, by decide +kernel, houtput, hmanifest, hresult, hagain, hsame⟩

end ModuleBuild
