import ModuleBuild.Engine
import ModuleBuild.Manifest
import ModuleBuild.Report
import ModuleBuild.Request

/-!
# Builds

A build compiles one file: the engine builds its program, the program is checked, and if no error is
found the output is written, with a manifest of its imports if that is asked for. What an engine
emits under names without the extension `js` is ignored; of several modules the last one counts, and
it is written under the name that the request gives.

A build changes a file tree, a reporter and a log. It fails with a cause; what it has done until then
stays done. Diagnostics of emitting are reported after the output is written and do not change the
result.
-/

namespace ModuleBuild

/-- Why a build cannot go on. -/
inductive Failure where
  /-- The engine cannot build a program. -/
  | engine (error : Engine.Error)
  /-- The program does not have the input. -/
  | missingSourceFile (path : Path)
  /-- The directory of the output cannot be made. -/
  | makeDirectory (path : Path) (cause : IoError)
  /-- The manifest cannot be written. -/
  | writeManifest (path : Path) (cause : IoError)
  /-- The output cannot be written. -/
  | writeOutput (path : Path) (cause : IoError)
  /-- The diagnostics cannot be written. -/
  | report (cause : IoError)
  deriving DecidableEq, Repr

namespace Failure

/-- The wording of the failure, without its cause. -/
def message : Failure → String
  | engine (.unreadable path _) => "cannot read source file " ++ path.text
  | missingSourceFile path => "engine has no source file for " ++ path.text
  | makeDirectory path _ => "cannot create output directory " ++ path.text
  | writeManifest path _ => "cannot write dependency file " ++ path.text
  | writeOutput path _ => "cannot write output file " ++ path.text
  | report _ => "cannot write diagnostics"

/-- What stands behind the failure. -/
def cause? : Failure → Option IoError
  | engine (.unreadable _ cause) | makeDirectory _ cause | writeManifest _ cause
  | writeOutput _ cause | report cause => some cause
  | missingSourceFile _ => none

end Failure

/-- What a build changes. -/
structure Session (W : Type := Sink) where
  /-- The files. -/
  tree : FileTree
  /-- Where diagnostics go. -/
  reporter : Reporter W
  /-- What has happened, in order. -/
  log : List Event := []

/-- A step of a build: it changes a session, and it may fail. -/
abbrev Build (W : Type) := ExceptT Failure (StateM (Session W))

namespace Build

variable {W : Type}

/-! ## Steps -/

/-- Adds events to the log. -/
def note (events : List Event) : Build W Unit := modify fun s => { s with log := s.log ++ events }

/-- Reports diagnostics; the answer says whether one is an error. -/
def report [Writer W] (diagnostics : List Diagnostic) : Build W Bool := do
  let s ← get
  let (reporter, result) := s.reporter.report diagnostics
  set { s with reporter }
  match result with
  | .ok hasError => return hasError
  | .error cause => throw (.report cause)

/-- Builds the program of the input. -/
def createProgram (engine : Engine) (request : Request) : Build W Program := do
  let s ← get
  let (result, events) := engine.createProgram s.tree request.input request.engineOptions
  note events
  match result with
  | .ok program => return program
  | .error e => throw (.engine e)

/-- Makes a directory and its parents. -/
def makeDirectories (path : Path) : Build W Unit := do
  let s ← get
  let (tree, result) := s.tree.makeDirectories path
  set { s with tree }
  match result with
  | none => return
  | some cause => throw (.makeDirectory path cause)

/-- Writes a file; `failure` tells what it means when that fails. -/
def writeFile (failure : Path → IoError → Failure) (path : Path) (text : String) : Build W Unit := do
  let s ← get
  match s.tree.writeText path text with
  | .ok tree => set { s with tree }
  | .error cause => throw (failure path cause)

/-! ## Phases -/

/-- Checks the input; the answer says whether it passes. -/
def check [Writer W] (program : Program) (file : SourceFile) (request : Request) : Build W Bool := do
  let diagnostics := program.check file
  if ← report diagnostics then
    note [.checkFailed request.input]
    return false
  else
    note [.checkPassed diagnostics.length]
    return true

/-- Writes the manifest of the imports. -/
def writeManifest (request : Request) (imports : List String) : Build W Unit := do
  let path := request.resolve (Manifest.path request.output)
  let dependencies := Manifest.resolve request.base request.output imports
  writeFile .writeManifest path (Manifest.write request.output dependencies)
  note [.manifestWritten path dependencies.length]

/-- Whether an emitted file is a module. -/
def isModule (file : EmittedFile) : Bool := file.name.extension? = some "js"

/-- The last module among emitted files, `chosen` if there is none, and what is to be told about the
others. -/
def chooseModule (chosen : Option EmittedFile) :
    List EmittedFile → Option EmittedFile × List Event
  | [] => (chosen, [])
  | file :: files =>
    if isModule file then
      let (last, events) := chooseModule (some file) files
      (last, chosen.toList.map (.replaced ·.name) ++ events)
    else
      let (last, events) := chooseModule chosen files
      (last, .ignored file.name :: events)

/-- Writes the emitted module under the requested name. -/
def writeOutput (request : Request) (file : EmittedFile) : Build W Unit := do
  let path := request.resolve request.output
  unless file.name.sameAs request.output do
    note [.renamed file.name]
  writeFile .writeOutput path file.text
  note [.outputWritten path file.text.utf8ByteSize]

/-- Compiles the input and writes what comes of it. -/
def emit [Writer W] (program : Program) (file : SourceFile) (request : Request) : Build W Unit := do
  let imports := Manifest.imports file
  makeDirectories (request.resolve request.outputDir)
  if request.createDeps && !imports.isEmpty then
    writeManifest request imports
  let emission := program.emit file
  let (module?, events) := chooseModule none emission.outputs
  note events
  match module? with
  | some emitted => writeOutput request emitted
  | none => note [.nothingEmitted request.input emission.skipped]
  discard <| report emission.diagnostics

/-- Compiles the input of a request. The answer is false if the check finds an error; nothing is
written then. -/
def compile [Writer W] (engine : Engine) (request : Request) : Build W Bool := do
  let program ← createProgram engine request
  match program.sourceFile? request.input with
  | none => throw (.missingSourceFile request.input)
  | some file =>
    modify fun s => { s with reporter := s.reporter.addSource file }
    note [.created request.input (Manifest.imports file).length]
    let passed ← if request.check then check program file request else pure true
    if passed && request.emit then
      emit program file request
    return passed

end Build

/-- Runs a build: its result, and the session behind it. -/
def Session.compile {W : Type} [Writer W] (s : Session W) (engine : Engine) (request : Request) :
    Except Failure Bool × Session W :=
  (Build.compile engine request).run.run s

end ModuleBuild
