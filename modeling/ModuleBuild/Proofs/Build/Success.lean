import ModuleBuild.Proofs.Build.Effects
import ModuleBuild.Proofs.FileTree.Files

/-!
# What a successful build has done

A build that succeeds has taken all its steps, and each step that changes files is one operation on the
file tree. The tree behind the build is therefore what the operations of its effects, one after the
other, make of the tree before it.

Main statement: `performAll_of_compile`.
-/

namespace ModuleBuild

open FileTree

/-! ## Effects as operations -/

namespace Effect

/-- Does the effect. -/
def perform : Effect → FileTree → Except IoError FileTree
  | directories path, t =>
    match t.makeDirectories path with
    | (u, none) => .ok u
    | (_, some cause) => .error cause
  | file path text, t => t.writeText path text

/-- Does the effects in order. -/
def performAll : List Effect → FileTree → Except IoError FileTree
  | [], t => .ok t
  | e :: es, t =>
    match e.perform t with
    | .ok u => performAll es u
    | .error cause => .error cause

variable {t u v : FileTree}

theorem perform_directories_eq_ok_iff {path : Path} :
    (directories path).perform t = .ok u ↔ t.makeDirectories path = (u, none) := by
  rw [perform]
  cases t.makeDirectories path with
  | mk v result => cases result <;> simp

theorem performAll_cons_eq_ok_iff {e : Effect} {es : List Effect} :
    performAll (e :: es) t = .ok v ↔ ∃ u, e.perform t = .ok u ∧ performAll es u = .ok v := by
  rw [performAll]
  cases e.perform t <;> simp

theorem performAll_append_eq_ok_iff {es fs : List Effect} :
    performAll (es ++ fs) t = .ok v ↔ ∃ u, performAll es t = .ok u ∧ performAll fs u = .ok v := by
  induction es generalizing t with
  | nil => simp [performAll]
  | cons e es ih =>
    rw [List.cons_append, performAll_cons_eq_ok_iff]
    constructor
    · rintro ⟨mid, he, hrest⟩
      obtain ⟨u, hes, hfs⟩ := ih.mp hrest
      exact ⟨u, performAll_cons_eq_ok_iff.mpr ⟨mid, he, hes⟩, hfs⟩
    · rintro ⟨u, hall, hfs⟩
      obtain ⟨mid, he, hes⟩ := performAll_cons_eq_ok_iff.mp hall
      exact ⟨mid, he, ih.mpr ⟨u, hes, hfs⟩⟩

theorem keepsDirectories_of_perform {e : Effect} (h : e.perform t = .ok u) : KeepsDirectories t u := by
  cases e with
  | directories path =>
    have hgrown := grown_makeDirectories t path
    rw [perform_directories_eq_ok_iff.mp h] at hgrown
    exact .of_grown hgrown
  | file path text => exact keepsDirectories_of_writeText h

theorem keepsDirectories_of_performAll {es : List Effect} (h : performAll es t = .ok u) :
    KeepsDirectories t u := by
  induction es generalizing t with
  | nil =>
    obtain rfl := Except.ok.inj h
    exact .refl t
  | cons e es ih =>
    obtain ⟨mid, he, hes⟩ := performAll_cons_eq_ok_iff.mp h
    exact (keepsDirectories_of_perform he).trans (ih hes)

end Effect

namespace Build

open Effect

variable {W α β : Type}

/-! ## Steps that succeed -/

/-- A sequence that succeeds has a first step that succeeds. -/
theorem exec_bind_eq_ok {x : Build W α} {f : α → Build W β} {s s' : Session W} {b : β}
    (h : exec (x >>= f) s = (.ok b, s')) :
    ∃ a mid, exec x s = (.ok a, mid) ∧ exec (f a) mid = (.ok b, s') := by
  rw [exec_bind] at h
  cases hx : exec x s with
  | mk result mid =>
    rw [hx] at h
    cases result with
    | ok a => exact ⟨a, mid, rfl, h⟩
    | error e => cases h

variable {s s' : Session W}

theorem perform_of_exec_makeDirectories {path : Path}
    (h : exec (makeDirectories path) s = (.ok (), s')) :
    (directories path).perform s.tree = .ok s'.tree := by
  rw [perform_directories_eq_ok_iff]
  rw [exec_makeDirectories] at h
  cases hmake : s.tree.makeDirectories path with
  | mk u result =>
    rw [hmake] at h
    cases result with
    | none =>
      obtain ⟨-, rfl⟩ := Prod.mk.inj h
      rfl
    | some cause => cases h

/-- A step writes a text at a path, whatever it logs about it. -/
theorem perform_of_exec_write {x : Build W Unit} {path : Path} {text : String}
    {failure : IoError → Failure}
    (hx : ∃ log, exec x s = match s.tree.writeText path text with
      | .ok tree => (.ok (), { s with tree, log })
      | .error cause => (.error (failure cause), { s with log }))
    (h : exec x s = (.ok (), s')) : (file path text).perform s.tree = .ok s'.tree := by
  obtain ⟨log, hexec⟩ := hx
  rw [hexec] at h
  rw [perform]
  cases hwrite : s.tree.writeText path text with
  | ok tree =>
    rw [hwrite] at h
    obtain ⟨-, rfl⟩ := Prod.mk.inj h
    rfl
  | error cause =>
    rw [hwrite] at h
    cases h

variable [Writer W]

theorem tree_of_exec_report {ds : List Diagnostic} (h : exec (discard (report ds)) s = (.ok (), s')) :
    s'.tree = s.tree := by
  rw [exec_discard, exec_report] at h
  cases hreport : (s.reporter.report ds).2 with
  | ok hasError =>
    rw [hreport] at h
    obtain ⟨-, rfl⟩ := Prod.mk.inj h
    rfl
  | error cause =>
    rw [hreport] at h
    cases h

/-! ## Builds that succeed -/

variable {request : Request} {file : SourceFile} {emission : Emission} {program : Program}

theorem performAll_of_exec_emitOutputs (h : exec (emitOutputs request emission) s = (.ok (), s')) :
    performAll (outputEffects request emission) s.tree = .ok s'.tree := by
  obtain ⟨_, noted, hnote, h⟩ := exec_bind_eq_ok h
  obtain ⟨-, rfl⟩ := Prod.mk.inj hnote
  rw [chooseModule_fst, Option.or_none] at h
  rw [outputEffects]
  cases hmodule : (emission.outputs.filter isModule).getLast? with
  | none =>
    rw [hmodule] at h
    obtain ⟨_, mid, hnote, h⟩ := exec_bind_eq_ok h
    obtain ⟨-, rfl⟩ := Prod.mk.inj hnote
    rw [tree_of_exec_report h]
    rfl
  | some emitted =>
    rw [hmodule] at h
    obtain ⟨_, mid, hwrite, h⟩ := exec_bind_eq_ok h
    have hperform := perform_of_exec_write (exec_writeOutput request emitted _) hwrite
    rw [tree_of_exec_report h]
    exact performAll_cons_eq_ok_iff.mpr ⟨mid.tree, hperform, rfl⟩

theorem performAll_of_exec_emit (h : exec (emit program file request) s = (.ok (), s')) :
    performAll (effects request file (program.emit file)) s.tree = .ok s'.tree := by
  rw [emit_eq] at h
  obtain ⟨_, made, hmake, h⟩ := exec_bind_eq_ok h
  refine performAll_cons_eq_ok_iff.mpr ⟨made.tree, perform_of_exec_makeDirectories hmake, ?_⟩
  rw [performAll_append_eq_ok_iff]
  by_cases hdeps : (request.createDeps && !(Manifest.imports file).isEmpty) = true
  · rw [if_pos hdeps] at h
    obtain ⟨_, written, hwrite, h⟩ := exec_bind_eq_ok h
    have hperform := perform_of_exec_write (exec_writeManifest request (Manifest.imports file) _) hwrite
    have hmanifest : manifestEffects request file = _ := if_pos hdeps
    rw [hmanifest]
    exact ⟨written.tree, performAll_cons_eq_ok_iff.mpr ⟨written.tree, hperform, rfl⟩,
      performAll_of_exec_emitOutputs h⟩
  · rw [if_neg hdeps] at h
    have hmanifest : manifestEffects request file = [] := if_neg hdeps
    rw [hmanifest]
    exact ⟨made.tree, rfl, performAll_of_exec_emitOutputs h⟩

/-- Behind the check a file that has passed is compiled. -/
theorem performAll_of_exec_passed {passed : Bool} (hemit : request.emit = true)
    (h : exec (if passed && request.emit then do
        emit program file request
        return passed
      else return passed : Build W Bool) s = (.ok true, s')) :
    performAll (effects request file (program.emit file)) s.tree = .ok s'.tree := by
  cases passed with
  | false => cases h
  | true =>
    rw [hemit] at h
    obtain ⟨_, emitted, hexec, h⟩ := exec_bind_eq_ok h
    obtain ⟨-, rfl⟩ := Prod.mk.inj h
    exact performAll_of_exec_emit hexec

/-- Up to the end of the check no file changes. -/
theorem exec_passed_of_exec_compile {engine : Engine}
    (h : exec (compile engine request) s = (.ok true, s')) :
    ∃ program file passed mid, Loads engine request s.tree program file ∧
      exec (if passed && request.emit then do
          emit program file request
          return passed
        else return passed : Build W Bool) mid = (.ok true, s') ∧ mid.tree = s.tree := by
  obtain ⟨program, created, hcreate, h⟩ := exec_bind_eq_ok h
  obtain ⟨log, hcreated⟩ := exec_createProgram engine request s
  rw [hcreated] at hcreate
  obtain ⟨hprogram, rfl⟩ := Prod.mk.inj hcreate
  have hresult : (engine.createProgram s.tree request.input request.engineOptions).1 = .ok program := by
    cases hresult : (engine.createProgram s.tree request.input request.engineOptions).1 with
    | error e =>
      rw [hresult] at hprogram
      cases hprogram
    | ok program' =>
      rw [hresult] at hprogram
      rw [Except.ok.inj hprogram]
  cases hfound : program.sourceFile? request.input with
  | none =>
    simp only [hfound] at h
    cases h
  | some file =>
    simp only [hfound] at h
    obtain ⟨_, added, hadd, h⟩ := exec_bind_eq_ok h
    obtain ⟨-, rfl⟩ := Prod.mk.inj hadd
    obtain ⟨_, noted, hnote, h⟩ := exec_bind_eq_ok h
    obtain ⟨-, rfl⟩ := Prod.mk.inj hnote
    cases hcheck : request.check with
    | false =>
      rw [hcheck] at h
      exact ⟨program, file, true, _, ⟨hresult, hfound⟩, h, rfl⟩
    | true =>
      rw [hcheck] at h
      obtain ⟨passed, checked, hchecked, h⟩ := exec_bind_eq_ok h
      obtain ⟨log', hreport⟩ := exec_check program file request
        { s with reporter := s.reporter.addSource file, log := _ }
      rw [hreport] at hchecked
      obtain ⟨-, rfl⟩ := Prod.mk.inj hchecked
      exact ⟨program, file, passed, _, ⟨hresult, hfound⟩, h, rfl⟩

end Build

/-- The tree behind a build that answers that all is well, and that is asked to write something, is what
its effects make of the tree before it. -/
theorem performAll_of_compile {W : Type} [Writer W] {engine : Engine} {request : Request} {s : Session W}
    (hemit : request.emit = true) (h : (s.compile engine request).1 = .ok true) :
    ∃ program file, Build.Loads engine request s.tree program file ∧
      Effect.performAll (Build.effects request file (program.emit file)) s.tree =
        .ok (s.compile engine request).2.tree := by
  have hexec : Build.exec (Build.compile engine request) s = (.ok true, (s.compile engine request).2) :=
    Prod.ext h rfl
  obtain ⟨program, file, passed, mid, hloads, hpassed, htree⟩ := Build.exec_passed_of_exec_compile hexec
  rw [← htree]
  exact ⟨program, file, htree ▸ hloads, Build.performAll_of_exec_passed hemit hpassed⟩

end ModuleBuild
