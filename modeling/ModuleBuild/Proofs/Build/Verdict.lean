import ModuleBuild.Proofs.Build.Effects
import ModuleBuild.Proofs.Engine.Diagnostics
import ModuleBuild.Proofs.Outline.Delimiters

/-!
# The verdict of the lexical engine

With a writer that takes all it is given, a check by the lexical engine fails exactly if the engine has
something to report, which it has exactly if the file has an error token or brackets that are not well
nested. Emitting reports nothing, so what a build has reported in the end is what the check has found.

Main statements: `Build.reporter_compile`, about the reporter behind a build whose engine has nothing to
say about emitting; and `compile_lexical`, about the builds of the lexical engine.
-/

namespace ModuleBuild

open Delimiter

/-! ## Writers that work -/

namespace Writer

variable {W : Type} [Writer W]

/-- The writer takes the texts one after the other. -/
def Takes : W → List String → Prop
  | _, [] => True
  | w, text :: texts => (write w text).2 = .ok () ∧ Takes (write w text).1 texts

/-- The writer takes whatever it is given. -/
def Works (w : W) : Prop := ∀ texts, Takes w texts

theorem Works.write {w : W} (h : Works w) (text : String) :
    (Writer.write w text).2 = .ok () ∧ Works (Writer.write w text).1 :=
  ⟨(h [text]).1, fun texts => (h (text :: texts)).2⟩

end Writer

theorem Sink.works {s : Sink} (h : s.capacity = none) : Writer.Works s := by
  intro texts
  induction texts generalizing s with
  | nil => trivial
  | cons text texts ih =>
    have hwrite : (s.write text).2 = .ok () := by simp [write, h]
    exact ⟨hwrite, ih ((capacity_write s text).trans h)⟩

namespace Reporter

variable {W : Type} [Writer W]

theorem exists_report_eq_ok {r : Reporter W} (h : Writer.Works r.sink) (ds : List Diagnostic) :
    ∃ hasError, (r.report ds).2 = .ok hasError := by
  induction ds generalizing r with
  | nil => exact ⟨false, rfl⟩
  | cons d ds ih =>
    rw [report]
    split
    · exact ih h
    · next location _ =>
      obtain ⟨hwrite, hworks⟩ := h.write (r.written d location)
      split
      · next sink e heq =>
        rw [heq] at hwrite
        cases hwrite
      · next sink heq =>
        rw [heq] at hworks
        obtain ⟨hasError, hrest⟩ := @ih { r with sink } hworks
        exact ⟨d.severity.isError || hasError, by simp [hrest, Except.map]⟩

end Reporter

namespace Build

variable {W α β : Type}

/-! ## What a build reports -/

/-- The step leaves the reporter as it is. -/
def KeepsReporter (x : Build W α) : Prop := ∀ s, (exec x s).2.reporter = s.reporter

theorem KeepsReporter.bind {x : Build W α} {f : α → Build W β} (hx : KeepsReporter x)
    (hf : ∀ a, KeepsReporter (f a)) : KeepsReporter (x >>= f) := by
  intro s
  have hs := hx s
  rw [exec_bind]
  cases hexec : exec x s with
  | mk result s' =>
    rw [hexec] at hs
    cases result with
    | ok a => exact (hf a s').trans hs
    | error e => exact hs

theorem keepsReporter_note (events : List Event) : KeepsReporter (note events : Build W Unit) :=
  fun _ => rfl

theorem keepsReporter_makeDirectories (path : Path) :
    KeepsReporter (makeDirectories path : Build W Unit) := by
  intro s
  rw [exec_makeDirectories]

theorem keepsReporter_writeManifest (request : Request) (imports : List String) :
    KeepsReporter (writeManifest request imports : Build W Unit) := by
  intro s
  obtain ⟨log, hexec⟩ := exec_writeManifest request imports s
  rw [hexec]
  split <;> rfl

theorem keepsReporter_writeOutput (request : Request) (file : EmittedFile) :
    KeepsReporter (writeOutput request file : Build W Unit) := by
  intro s
  obtain ⟨log, hexec⟩ := exec_writeOutput request file s
  rw [hexec]
  split <;> rfl

variable [Writer W]

/-- Emitting leaves the reporter as it is, if the engine has nothing to say about it. -/
theorem keepsReporter_emit {program : Program} {file : SourceFile} {request : Request}
    (hsilent : (program.emit file).diagnostics = []) :
    KeepsReporter (emit program file request : Build W Unit) := by
  have hreport : KeepsReporter (discard (report []) : Build W Unit) := fun s => by
    rw [exec_discard, exec_report]
    rfl
  have houtputs : KeepsReporter (emitOutputs request (program.emit file) : Build W Unit) := by
    refine (keepsReporter_note _).bind fun _ => ?_
    rw [hsilent]
    split
    · exact (keepsReporter_writeOutput _ _).bind fun _ => hreport
    · exact (keepsReporter_note _).bind fun _ => hreport
  rw [emit_eq]
  refine (keepsReporter_makeDirectories _).bind fun _ => ?_
  split
  · exact (keepsReporter_writeManifest _ _).bind fun _ => houtputs
  · exact houtputs

/-- If the engine has nothing to say about emitting, a build with a check has reported what the check
has found. -/
theorem reporter_compile {engine : Engine} {request : Request} {s : Session W} {program : Program}
    {file : SourceFile} (hloads : Loads engine request s.tree program file)
    (hcheck : request.check = true) (hsilent : (program.emit file).diagnostics = []) :
    (s.compile engine request).2.reporter =
      ((s.reporter.addSource file).report (program.check file)).1 := by
  have hrest : ∀ passed : Bool, KeepsReporter (if passed && request.emit then do
      emit program file request
      return passed
    else return passed : Build W Bool) := by
    intro passed
    split
    · exact (keepsReporter_emit hsilent).bind fun _ _ => rfl
    · exact fun _ => rfl
  show (exec (compile engine request) s).2.reporter = _
  obtain ⟨log, hcreate⟩ := exec_createProgram engine request s
  rw [compile, exec_bind, hcreate, hloads.created]
  simp only [Except.mapError, hloads.found, exec_bind, exec_modify, exec_note, hcheck, if_true]
  obtain ⟨log', hexec⟩ := exec_check program file request
    { s with reporter := s.reporter.addSource file, log := _ }
  rw [hexec]
  cases ((s.reporter.addSource file).report (program.check file)).2 with
  | error cause => rfl
  | ok hasError => exact hrest _ _

/-- Where the check has failed, no file has changed. -/
theorem Ends.tree_eq {engine : Engine} {request : Request} {s : Session W} {u : FileTree}
    (h : Ends engine request s (.ok false) u) : u = s.tree := by
  generalize hr : (Except.ok false : Except Failure Bool) = result at h
  cases h with
  | checkFailed => rfl
  | emitted _ _ _ hends => cases hends <;> cases hr
  | _ => cases hr

end Build

/-! ## The lexical engine -/

namespace LexicalProgram

variable (root : Path) (options : Options) (text : String)

theorem sourceFile?_self : (ofText root options text).1.sourceFile? root =
    some (SourceFile.ofText root.text text) := by
  have hsame : Path.sameAs root root = true := by simp [Path.sameAs]
  rw [sourceFile?]
  exact if_pos hsame

theorem check_self : (ofText root options text).1.check (SourceFile.ofText root.text text) =
    (ofText root options text).1.diagnostics := by
  rw [check]
  exact if_pos (by simp [owns, ofText, SourceFile.ofText])

theorem diagnostics_emit (p : LexicalProgram) (file : SourceFile) : (p.emit file).diagnostics = [] := by
  rw [emit]
  split <;> rfl

/-- All that is reported are errors with a place, so an error is reported if anything is. -/
theorem exists_error_iff :
    (∃ d ∈ (ofText root options text).1.diagnostics, d.location.isSome = true ∧ d.severity = .error) ↔
      (∃ t ∈ (Lexed.ofText text).tokens, t.kind = .error) ∨
        ¬WellNested (brackets (Delimiter.ofTokens (Lexed.ofText text).tokens)) := by
  have hnil : (ofText root options text).1.diagnostics ≠ [] ↔
      (∃ t ∈ (Lexed.ofText text).tokens, t.kind = .error) ∨
        ¬WellNested (brackets (Delimiter.ofTokens (Lexed.ofText text).tokens)) := by
    rw [Ne, diagnostics_eq_nil_iff, Classical.not_and_iff_not_or_not]
    simp
  rw [← hnil]
  constructor
  · rintro ⟨d, hd, -⟩ hnone
    rw [hnone] at hd
    cases hd
  · intro hne
    obtain ⟨d, hd⟩ := List.exists_mem_of_ne_nil _ hne
    obtain ⟨p, -, hp⟩ := List.mem_map.mp hd
    exact ⟨d, hd, hp ▸ rfl, hp ▸ rfl⟩

end LexicalProgram

theorem Build.loads_lexical (base : Path) {request : Request} {tree : FileTree} {text : String}
    (htext : tree.readText (base.join request.input) = .ok text) :
    Loads (Engine.lexical base) request tree
      (LexicalProgram.ofText request.input request.engineOptions text).1.toProgram
      (SourceFile.ofText request.input.text text) := by
  refine ⟨?_, LexicalProgram.sourceFile?_self ..⟩
  simp only [Engine.lexical, LexicalProgram.create, htext]
  rfl

/-- A build of a text that can be read, with a check by the lexical engine and with a writer that works,
answers that the check has failed exactly if there is an error token or the brackets are not well
nested; it has then written no file. What has been reported, all of it successfully, is one diagnostic
for each error token and one for each delimiter problem, in the order of lines and columns, each with
its place in the text. -/
theorem compile_lexical {W : Type} [Writer W] (base : Path) (request : Request) (s : Session W)
    (text : String) (htext : s.tree.readText (base.join request.input) = .ok text)
    (hcheck : request.check = true) (hworks : Writer.Works s.reporter.sink) :
    ((s.compile (Engine.lexical base) request).1 = .ok false ↔
      (∃ t ∈ (Lexed.ofText text).tokens, t.kind = .error) ∨
        ¬WellNested (brackets (Delimiter.ofTokens (Lexed.ofText text).tokens))) ∧
    ((s.compile (Engine.lexical base) request).1 = .ok false →
      (s.compile (Engine.lexical base) request).2.tree = s.tree) ∧
    ∃ ds : List Diagnostic,
      (s.compile (Engine.lexical base) request).2.reporter =
        ((s.reporter.addSource (SourceFile.ofText request.input.text text)).report ds).1 ∧
      (∃ hasError, ((s.reporter.addSource (SourceFile.ofText request.input.text text)).report ds).2 =
        .ok hasError) ∧
      ds.Perm (((Lexed.ofText text).tokens.filterMap Problem.ofError? ++
        Problem.ofDelimiters ⟨Text.byteLength text.toList, Text.byteLength text.toList⟩ []
          (Outline.significant (Lexed.ofText text).tokens)).map
            (LexicalProgram.diagnosticOf (SourceFile.ofText request.input.text text))) ∧
      (ds.Pairwise fun d e => ∀ l ∈ d.location, ∀ m ∈ e.location, l.Precedes m) ∧
      ∀ d ∈ ds, ∃ l, d.location = some l ∧ l.IsIn text.toList := by
  have hloads := Build.loads_lexical base htext
  have hends := Build.ends_compile (Engine.lexical base) request s
  have hcheckSelf := LexicalProgram.check_self request.input request.engineOptions text
  have hsink : Writer.Works
      (s.reporter.addSource (SourceFile.ofText request.input.text text)).sink := by
    rwa [Reporter.sink_addSource]
  have hwritten := Reporter.exists_report_eq_ok hsink
    (LexicalProgram.ofText request.input request.engineOptions text).1.diagnostics
  have hreported := Build.reporter_compile hloads hcheck (LexicalProgram.diagnostics_emit ..)
  refine ⟨?_, ?_, _, hreported.trans (by rw [← hcheckSelf]; rfl), hwritten,
    LexicalProgram.perm_diagnostics .., LexicalProgram.pairwise_diagnostics ..,
    fun d hd => LexicalProgram.isIn_of_mem_diagnostics _ _ _ hd⟩
  · rw [hends.eq_false_iff, ← LexicalProgram.exists_error_iff request.input request.engineOptions text]
    constructor
    · rintro ⟨program, file, hloads', hchecked⟩
      obtain ⟨rfl, rfl⟩ := hloads.unique hloads'
      obtain ⟨-, -, herror⟩ := (Build.checked_eq_true_iff ..).mp hchecked
      rw [← hcheckSelf]
      exact herror
    · intro herror
      rw [← hcheckSelf] at hwritten herror
      exact ⟨_, _, hloads, (Build.checked_eq_true_iff ..).mpr ⟨hcheck, hwritten, herror⟩⟩
  · intro hfalse
    rw [hfalse] at hends
    exact hends.tree_eq

/-- A call that is not closed does not pass the check, and nothing is written. -/
theorem compile_open_call :
    ∃ (s : Session) (request : Request),
      s.tree.readText (Path.join ⟨""⟩ request.input) = .ok "f(" ∧ request.check = true ∧
        Writer.Works s.reporter.sink ∧
        (s.compile (Engine.lexical ⟨""⟩) request).1 = .ok false ∧
        (s.compile (Engine.lexical ⟨""⟩) request).2.tree = s.tree := by
  have htext : ({ entries := [(["a.ts"], .file "f(".toUTF8)] } : FileTree).readText
      (Path.join ⟨""⟩ ⟨"a.ts"⟩) = .ok "f(" := rfl
  have hworks : Writer.Works ({} : Sink) := Sink.works rfl
  obtain ⟨hverdict, htree, -⟩ := compile_lexical ⟨""⟩
    { input := ⟨"a.ts"⟩, output := ⟨"a.js"⟩ }
    { tree := { entries := [(["a.ts"], .file "f(".toUTF8)] }, reporter := { sink := ({} : Sink) } }
    "f(" htext rfl hworks
  have hfalse := hverdict.mpr (by decide +kernel)
  exact ⟨_, _, htext, rfl, hworks, hfalse, htree hfalse⟩

end ModuleBuild
