import ModuleBuild.Proofs.Build.Success
import ModuleBuild.Proofs.Build.Verdict

/-!
# Manifests on disk

A build of a file that imports something writes its manifest, and what it writes afterwards stands
elsewhere. A build of a file that imports nothing leaves alone what is there, be it the manifest of an
earlier build. So behind any number of builds the manifest is the one of the last file that imported
something, and it is the one of the last build only if that file was the last or if there never was a
manifest.

Main statements: `manifest_of_compile`, about one build, and `History.manifest`, about many.
-/

namespace ModuleBuild

open FileTree Effect

/-! ## The manifest of an output -/

namespace Manifest

/-- The path of the manifest of an output, seen from the base. -/
def location (base output : Path) : Path := base.join (path output)

/-- The manifest of an output with its imports. -/
def ofImports (base output : Path) (imports : List String) : String :=
  write output (resolve base output imports)

theorem location_eq (base output : Path) :
    location base output = ⟨(base.join output).text ++ ".d"⟩ :=
  Path.join_append base (by simp)

end Manifest

/-! ## One build -/

namespace Build

variable {request : Request} {file : SourceFile} {emission : Emission} {t u : FileTree}

/-- The output is not written at the place of the manifest. -/
theorem node?_of_performAll_outputEffects (h : performAll (outputEffects request emission) t = .ok u) :
    u.node? (t.reach (Manifest.location request.base request.output)) =
      t.node? (t.reach (Manifest.location request.base request.output)) := by
  rw [outputEffects] at h
  split at h
  · next emitted _ =>
    obtain ⟨written, hwrite, hrest⟩ := performAll_cons_eq_ok_iff.mp h
    obtain rfl := Except.ok.inj hrest
    obtain ⟨hslash, place, htarget, -⟩ := writeText_eq_ok_iff.mp hwrite
    rw [Manifest.location_eq]
    exact (node?_of_writeText hwrite).2 _ (reach_append_ne hslash htarget (by simp) (by simp))
  · obtain rfl := Except.ok.inj h
    rfl

/-- Behind a build of a file that imports something its manifest can be read. -/
theorem readBytes_of_performAll_effects (hdeps : request.createDeps = true)
    (himports : Manifest.imports file ≠ []) (h : performAll (effects request file emission) t = .ok u) :
    u.readBytes (Manifest.location request.base request.output) =
      .ok (Manifest.ofImports request.base request.output (Manifest.imports file)).toUTF8 := by
  have hmanifest : manifestEffects request file =
      [.file (Manifest.location request.base request.output)
        (Manifest.ofImports request.base request.output (Manifest.imports file))] :=
    if_pos (by simp [hdeps, himports])
  rw [effects, hmanifest] at h
  obtain ⟨made, -, h⟩ := performAll_cons_eq_ok_iff.mp h
  obtain ⟨written, hwrite, h⟩ := performAll_cons_eq_ok_iff.mp h
  obtain ⟨place, hlocate, hnode⟩ := readBytes_eq_ok_iff.mp (readBytes_of_writeText hwrite)
  refine readBytes_eq_ok_iff.mpr ⟨place, (keepsDirectories_of_performAll h).locate hlocate, ?_⟩
  rw [locate_eq_ok hlocate] at hnode ⊢
  exact (node?_of_performAll_outputEffects h).trans hnode

/-- Behind a build of a file that imports nothing there is a file at the place of the manifest exactly if
it was there before. -/
theorem node?_of_performAll_effects (himports : Manifest.imports file = [])
    (h : performAll (effects request file emission) t = .ok u) (content : ByteArray) :
    u.node? (t.reach (Manifest.location request.base request.output)) = some (.file content) ↔
      t.node? (t.reach (Manifest.location request.base request.output)) = some (.file content) := by
  have hmanifest : manifestEffects request file = [] := if_neg (by simp [himports])
  rw [effects, hmanifest] at h
  obtain ⟨made, hmake, h⟩ := performAll_cons_eq_ok_iff.mp h
  have hgrown := grown_makeDirectories t (request.resolve request.outputDir)
  rw [perform_directories_eq_ok_iff.mp hmake] at hgrown
  have hreach := reach_congr hgrown.workingDirectory (Manifest.location request.base request.output)
  rw [← hreach, node?_of_performAll_outputEffects h]
  exact hgrown.node?_eq_file_iff _ content

end Build

/-- The manifest on disk is the one of the imports: there is one exactly if something is imported, and
then it is theirs. -/
def FileTree.HasManifest (u : FileTree) (base output : Path) (imports : List String) : Prop :=
  ((∃ content, u.readBytes (Manifest.location base output) = .ok content) ↔ imports ≠ []) ∧
    (imports ≠ [] → u.readBytes (Manifest.location base output) =
      .ok (Manifest.ofImports base output imports).toUTF8)

/-- Behind a build that succeeds, with manifests asked for, the manifest on disk is the one of the file
just compiled exactly if that file imports something or there was no file at the place of the manifest
before. If it imports nothing, the file that can be read there is the one that was there before. -/
theorem manifest_of_compile {W : Type} [Writer W] {engine : Engine} {request : Request} {s : Session W}
    (hemit : request.emit = true) (hdeps : request.createDeps = true)
    (h : (s.compile engine request).1 = .ok true) :
    let location := Manifest.location request.base request.output
    let u := (s.compile engine request).2.tree
    ∃ program file, Build.Loads engine request s.tree program file ∧
      (u.HasManifest request.base request.output (Manifest.imports file) ↔
        Manifest.imports file ≠ [] ∨
          ∀ place content, u.locate location = .ok place → s.tree.node? place ≠ some (.file content)) ∧
      (Manifest.imports file = [] → ∀ content, u.readBytes location = .ok content ↔
        ∃ place, u.locate location = .ok place ∧ s.tree.node? place = some (.file content)) := by
  intro location u
  obtain ⟨program, file, hloads, hall⟩ := performAll_of_compile hemit h
  have hreach := reach_congr (keepsDirectories_of_performAll hall).workingDirectory location
  have hleft : Manifest.imports file = [] → ∀ content, u.readBytes location = .ok content ↔
      ∃ place, u.locate location = .ok place ∧ s.tree.node? place = some (.file content) := by
    intro himports content
    rw [readBytes_eq_ok_iff]
    refine exists_congr fun place => and_congr_right fun hlocate => ?_
    rw [locate_eq_ok hlocate, hreach]
    exact Build.node?_of_performAll_effects himports hall content
  refine ⟨program, file, hloads, ?_, hleft⟩
  by_cases himports : Manifest.imports file = []
  · simp only [FileTree.HasManifest, himports, ne_eq, not_true_eq_false, false_or, iff_false,
      false_implies, and_true]
    constructor
    · intro hnone place content hlocate hnode
      exact hnone ⟨content, (hleft himports content).mpr ⟨place, hlocate, hnode⟩⟩
    · rintro hnone ⟨content, hread⟩
      obtain ⟨place, hlocate, hnode⟩ := (hleft himports content).mp hread
      exact hnone place content hlocate hnode
  · have hread := Build.readBytes_of_performAll_effects hdeps himports hall
    exact iff_of_true ⟨iff_of_true ⟨_, hread⟩ himports, fun _ => hread⟩ (Or.inl himports)

/-- A session with nothing but a file `a.ts` in its tree. -/
def Session.ofText (text : String) : Session :=
  { tree := { entries := [(["a.ts"], .file text.toUTF8)] }, reporter := { sink := ({} : Sink) } }

/-- The request to compile `a.ts` to `a.js` and to write a manifest. -/
def Request.withManifest : Request :=
  { input := ⟨"a.ts"⟩, output := ⟨"a.js"⟩, createDeps := true, base := ⟨""⟩ }

/-- Behind the build of a file that imports something there is its manifest. -/
theorem manifest_of_compile_import :
    Request.withManifest.emit = true ∧ Request.withManifest.createDeps = true ∧
      ((Session.ofText "import './x';").compile (Engine.lexical ⟨""⟩) .withManifest).1 = .ok true ∧
      ((Session.ofText "import './x';").compile (Engine.lexical ⟨""⟩) .withManifest).2.tree.HasManifest
        ⟨""⟩ ⟨"a.js"⟩ ["./x.js"] := by
  have hresult :
      ((Session.ofText "import './x';").compile (Engine.lexical ⟨""⟩) .withManifest).1 = .ok true := by
    decide +kernel
  obtain ⟨program, file, hloads, hmatches, -⟩ := manifest_of_compile rfl rfl hresult
  have htext : (Session.ofText "import './x';").tree.readText
      (Path.join ⟨""⟩ Request.withManifest.input) = .ok "import './x';" := by
    decide +kernel
  obtain ⟨-, rfl⟩ := (Build.loads_lexical ⟨""⟩ htext).unique hloads
  have himports : Manifest.imports (SourceFile.ofText "a.ts" "import './x';") = ["./x.js"] := by
    decide +kernel
  have hmanifest := hmatches.mpr (Or.inl (by rw [Request.withManifest, himports]; exact List.cons_ne_nil _ _))
  rw [Request.withManifest, himports] at hmanifest
  exact ⟨rfl, rfl, hresult, hmanifest⟩

/-- When a file that has imported something no longer does, the manifest of the build before is left. -/
theorem manifest_left_behind :
    ∃ changed : Session, Request.withManifest.emit = true ∧ Request.withManifest.createDeps = true ∧
      changed.tree =
        ((Session.ofText "import './x';").compile (Engine.lexical ⟨""⟩) .withManifest).2.tree.put
          ["a.ts"] (.file "f();".toUTF8) ∧
      (changed.compile (Engine.lexical ⟨""⟩) .withManifest).1 = .ok true ∧
      ∃ program file, Build.Loads (Engine.lexical ⟨""⟩) .withManifest changed.tree program file ∧
        Manifest.imports file = [] ∧
        ¬(changed.compile (Engine.lexical ⟨""⟩) .withManifest).2.tree.HasManifest ⟨""⟩ ⟨"a.js"⟩ [] := by
  let built := ((Session.ofText "import './x';").compile (Engine.lexical ⟨""⟩) .withManifest).2
  have htext : (built.tree.put ["a.ts"] (.file "f();".toUTF8)).readText
      (Path.join ⟨""⟩ Request.withManifest.input) = .ok "f();" := by
    decide +kernel
  refine ⟨{ built with tree := built.tree.put ["a.ts"] (.file "f();".toUTF8) }, rfl, rfl, rfl,
    by decide +kernel, _, _, Build.loads_lexical ⟨""⟩ htext, by decide +kernel, ?_⟩
  have hread : (({ built with tree := built.tree.put ["a.ts"] (.file "f();".toUTF8) } : Session).compile
      (Engine.lexical ⟨""⟩) .withManifest).2.tree.readBytes (Manifest.location ⟨""⟩ ⟨"a.js"⟩) =
        .ok "a.js: x.js".toUTF8 := by
    decide +kernel
  intro hmatches
  exact hmatches.1.mp ⟨_, hread⟩ rfl

/-! ## Many builds -/

/-- Successful builds of one output with manifests asked for, from one tree to another, and changes in
between that leave the file at the place of the manifest as it is. The lists are what the files compiled
import, the last one last. -/
inductive History (base output : Path) (t : FileTree) : List (List String) → FileTree → Prop where
  | start : History base output t [] t
  | change {importss : List (List String)} {u v : FileTree} (h : History base output t importss u)
    (hworking : v.workingDirectory = u.workingDirectory)
    (hfile : ∀ content, v.node? (u.reach (Manifest.location base output)) = some (.file content) ↔
      u.node? (u.reach (Manifest.location base output)) = some (.file content)) :
    History base output t importss v
  | build {W : Type} [Writer W] {importss : List (List String)} {engine : Engine} {request : Request}
    {s : Session W} {program : Program} {file : SourceFile}
    (h : History base output t importss s.tree) (hbase : request.base = base)
    (houtput : request.output = output) (hemit : request.emit = true)
    (hdeps : request.createDeps = true) (hresult : (s.compile engine request).1 = .ok true)
    (hloads : Build.Loads engine request s.tree program file) :
    History base output t (importss ++ [Manifest.imports file]) (s.compile engine request).2.tree

namespace History

variable {base output : Path} {t u : FileTree} {importss : List (List String)}

theorem workingDirectory (h : History base output t importss u) :
    u.workingDirectory = t.workingDirectory := by
  induction h with
  | start => rfl
  | change _ hworking _ ih => exact hworking.trans ih
  | build _ _ _ hemit _ hresult _ ih =>
    obtain ⟨_, _, _, hall⟩ := performAll_of_compile hemit hresult
    exact (keepsDirectories_of_performAll hall).workingDirectory.trans ih

/-- Whatever has been built, the manifest is the one of the last file that imported something. If there
was none, there is a file at the place of the manifest exactly if it was there at the start. -/
theorem manifest (h : History base output t importss u) (content : ByteArray) :
    u.node? (t.reach (Manifest.location base output)) = some (.file content) ↔
      match (importss.filter (· ≠ [])).getLast? with
      | some imports => content = (Manifest.ofImports base output imports).toUTF8
      | none => t.node? (t.reach (Manifest.location base output)) = some (.file content) := by
  induction h with
  | start => rfl
  | change h _ hfile ih =>
    rw [← reach_congr h.workingDirectory] at ih ⊢
    exact (hfile content).trans ih
  | @build W _ importss engine request s program file h hbase houtput hemit hdeps hresult hloads ih =>
    subst hbase houtput
    obtain ⟨program', file', hloads', hall⟩ := performAll_of_compile hemit hresult
    obtain ⟨rfl, rfl⟩ := hloads.unique hloads'
    rw [← reach_congr h.workingDirectory] at ih ⊢
    by_cases himports : Manifest.imports file' = []
    · have hfilter : (importss ++ [Manifest.imports file']).filter (· ≠ []) = importss.filter (· ≠ []) := by
        simp [himports]
      rw [hfilter]
      exact (Build.node?_of_performAll_effects himports hall content).trans ih
    · have hlast : ((importss ++ [Manifest.imports file']).filter (· ≠ [])).getLast? =
          some (Manifest.imports file') := by
        simp [himports]
      have hread := Build.readBytes_of_performAll_effects hdeps himports hall
      obtain ⟨place, hlocate, hnode⟩ := readBytes_eq_ok_iff.mp hread
      rw [locate_eq_ok hlocate, reach_congr (keepsDirectories_of_performAll hall).workingDirectory] at hnode
      rw [hlast, hnode, Option.some.injEq, Node.file.injEq]
      exact eq_comm

end History

end ModuleBuild
