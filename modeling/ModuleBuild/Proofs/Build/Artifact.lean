import ModuleBuild.Proofs.Build.Manifests
import ModuleBuild.Proofs.Engine.Erasure
import ModuleBuild.Proofs.FileTree.Names

/-!
# The artifact of a build

A build writes the last module that the engine emits, and the engine names what it emits after the input.
The two fit together: an input that can be read ends in a name, the stem of a name is not empty, and the
stem with the extension of a module is the name of a module, whatever the directory for emitted files. So
the text that the lexical engine emits is never passed over, and a build that succeeds leaves it under
the name that the request gives.

Main statements: `LexicalProgram.isModule_outputName` and `artifact_of_compile`.
-/

namespace ModuleBuild

open FileTree Effect Text

/-! ## The name of the emitted module -/

theorem Path.stem_ne_nil {name : Path.Segment} (h : name ≠ []) : (Path.cutName name).1 ≠ [] := by
  rcases Path.cutName_cases name with hcut | ⟨stem, extension, hstem, -, -, hcut⟩
  · rwa [hcut]
  · rwa [hcut]

/-- A stem and the extension of a module make the name of a module. -/
theorem Build.isModule_of_lastSegment {file : EmittedFile} {stem : Path.Segment} (hstem : stem ≠ [])
    (h : file.name.lastSegment = stem ++ ".js".toList) : isModule file = true := by
  have hcut : Path.cutName (stem ++ '.' :: ['j', 's']) = (stem, some ['j', 's']) :=
    Path.cutName_append hstem (by decide)
  have hname : file.name.EndsInName := by
    refine Path.isName_of_segment (Path.not_mem_lastSegment _) ?_ ?_
    · simp [h, Path.isVoid, hstem, List.append_eq_cons_iff]
    · intro hdots
      have hlength := congrArg List.length (h.symm.trans hdots)
      simp at hlength
  have hextension : file.name.extension? = some "js" := by
    rw [hname.extension?_eq, h]
    exact congrArg (fun cut => cut.2.map String.ofList) hcut
  rw [isModule, hextension]
  rfl

namespace LexicalProgram

/-- What is emitted for a file whose name ends in a name is a module. -/
theorem isModule_outputName {p : LexicalProgram} (h : Path.EndsInName ⟨p.file.name⟩) (out : String) :
    Build.isModule ⟨p.outputName, out⟩ = true := by
  refine Build.isModule_of_lastSegment (Path.stem_ne_nil h.lastSegment_ne_nil) ?_
  have hslash : '/' ∉ (Path.cutName (Path.lastSegment ⟨p.file.name⟩)).1 ++ ".js".toList := by
    rw [List.mem_append, not_or]
    exact ⟨Path.not_mem_cutName (Path.not_mem_lastSegment _), by decide⟩
  have hsegments : Path.segments
      ⟨String.ofList (Path.cutName (Path.lastSegment ⟨p.file.name⟩)).1 ++ ".js"⟩ =
        [] ++ [(Path.cutName (Path.lastSegment ⟨p.file.name⟩)).1 ++ ".js".toList] := by
    rw [Path.segments, String.toList_append, String.toList_ofList, Path.splitSlash_of_not_mem hslash]
    rfl
  rw [outputName, h.fileStem?_eq, Option.getD_some, Path.lastSegment_join]
  exact Path.lastSegment_of_segments hsegments

end LexicalProgram

/-! ## What is emitted -/

theorem Options.isSet_withOutDir (o : Options) (dir : Path) {key : String} (h : key ≠ "outDir") :
    (o.withOutDir dir).isSet key = o.isSet key := by
  rw [isSet, isSet, flag?_withOutDir o dir h]

theorem Options.isSet_eq_false_iff (o : Options) (key : String) :
    o.isSet key = false ↔ o.flag? key ≠ some true := by
  rw [isSet]
  cases o.flag? key with
  | none => simp
  | some b => simp

namespace Request

/-- The program of the lexical engine for a text. -/
def lexicalProgram (r : Request) (text : String) : LexicalProgram :=
  (LexicalProgram.ofText r.input r.engineOptions text).1

/-- What the lexical engine makes of a text. -/
def erased (r : Request) (text : String) : String :=
  Erasure.erase (SourceFile.ofText r.input.text text) (r.configuration.isSet "removeComments")

variable {r : Request}

theorem isSet_lexicalProgram (r : Request) (text : String) {key : String} (h : key ≠ "outDir") :
    (r.lexicalProgram text).options.isSet key = r.configuration.isSet key :=
  Options.isSet_withOutDir _ _ h

theorem emit_lexicalProgram (hemits : r.configuration.flag? "noEmit" ≠ some true) (text : String) :
    (r.lexicalProgram text).emit (SourceFile.ofText r.input.text text) =
      { outputs := [⟨(r.lexicalProgram text).outputName, r.erased text⟩] } := by
  have hnoEmit : (r.lexicalProgram text).options.isSet "noEmit" = false := by
    rwa [isSet_lexicalProgram r text (by decide), Options.isSet_eq_false_iff]
  have hemit := (r.lexicalProgram text).emit_ofText hnoEmit text
  rwa [isSet_lexicalProgram r text (by decide)] at hemit

theorem emit_lexicalProgram_of_noEmit (hnone : r.configuration.flag? "noEmit" = some true)
    (text : String) :
    (r.lexicalProgram text).emit (SourceFile.ofText r.input.text text) = { skipped := true } := by
  have hnoEmit : (r.lexicalProgram text).options.isSet "noEmit" = true := by
    rw [isSet_lexicalProgram r text (by decide), Options.isSet, hnone]
    rfl
  rw [LexicalProgram.emit, hnoEmit]
  simp

theorem isModule_lexicalProgram (hname : r.input.EndsInName) (text out : String) :
    Build.isModule ⟨(r.lexicalProgram text).outputName, out⟩ = true := by
  have hroot : (⟨(r.lexicalProgram text).file.name⟩ : Path) = r.input := rfl
  exact LexicalProgram.isModule_outputName (hroot ▸ hname) out

end Request

namespace Build

variable {request : Request} {file : SourceFile} {emission : Emission} {t u : FileTree}

/-- The lexical engine writes the erased text, unless the options forbid it. -/
theorem outputEffects_lexical (hname : request.input.EndsInName) (text : String) :
    outputEffects request ((request.lexicalProgram text).emit
        (SourceFile.ofText request.input.text text)) =
      if request.configuration.flag? "noEmit" = some true then []
      else [.file (request.resolve request.output) (request.erased text)] := by
  split
  · next hnone => rw [Request.emit_lexicalProgram_of_noEmit hnone, outputEffects]; rfl
  · next hemits =>
    have hmodule := Request.isModule_lexicalProgram hname text (request.erased text)
    rw [Request.emit_lexicalProgram hemits, outputEffects, List.filter_cons_of_pos hmodule]
    rfl

/-- The output can be read behind all effects of a build. -/
theorem readBytes_output_of_performAll_effects {path : Path} {text : String}
    (houtput : outputEffects request emission = [.file path text])
    (h : performAll (effects request file emission) t = .ok u) : u.readBytes path = .ok text.toUTF8 := by
  rw [effects, houtput] at h
  obtain ⟨made, -, h⟩ := performAll_cons_eq_ok_iff.mp h
  obtain ⟨written, -, h⟩ := performAll_append_eq_ok_iff.mp h
  obtain ⟨v, hwrite, h⟩ := performAll_cons_eq_ok_iff.mp h
  obtain rfl := Except.ok.inj h
  exact readBytes_of_writeText hwrite

end Build

/-- What the lexical engine emits for an input that can be read, unless the options forbid it, is one
module: the text without its imports of types only and, if that is asked for, without its comments. A
build that is asked to write something and succeeds leaves that text where the request wants it. -/
theorem artifact_of_compile {W : Type} [Writer W] {base : Path} {request : Request} {s : Session W}
    {text : String} (htext : s.tree.readText (base.join request.input) = .ok text)
    (hemits : request.configuration.flag? "noEmit" ≠ some true) :
    let file := SourceFile.ofText request.input.text text
    let removeComments := request.configuration.isSet "removeComments"
    ∃ program name out, Build.Loads (Engine.lexical base) request s.tree program file ∧
      (program.emit file).outputs = [⟨name, out⟩] ∧ Build.isModule ⟨name, out⟩ = true ∧
      out = Erasure.erase file removeComments ∧
      LeavesOut (Erasure.Erased file removeComments) 0 text.toUTF8.data.toList out.toUTF8.data.toList ∧
      (request.emit = true → (s.compile (Engine.lexical base) request).1 = .ok true →
        (s.compile (Engine.lexical base) request).2.tree.readBytes (request.resolve request.output) =
          .ok out.toUTF8) := by
  intro file removeComments
  have hname : request.input.EndsInName :=
    Path.endsInName_join.mp (endsInName_of_readBytes (readText_eq_ok_iff.mp htext))
  have hloads : Build.Loads (Engine.lexical base) request s.tree (request.lexicalProgram text).toProgram
      file := Build.loads_lexical base htext
  have houtput := Build.outputEffects_lexical hname text
  rw [if_neg hemits] at houtput
  refine ⟨_, _, request.erased text, hloads,
    congrArg Emission.outputs (Request.emit_lexicalProgram hemits text),
    Request.isModule_lexicalProgram hname text _, rfl, Erasure.leavesOut_erase .., ?_⟩
  intro hwrites hresult
  obtain ⟨program, file', hloads', hall⟩ := performAll_of_compile hwrites hresult
  obtain ⟨rfl, rfl⟩ := hloads.unique hloads'
  exact Build.readBytes_output_of_performAll_effects houtput hall

/-- What is left of a file with an import of types is its call. -/
theorem artifact_of_compile_call :
    (Session.ofText "import type \x7bT\x7d from 't';\nf();").tree.readText
        (Path.join ⟨""⟩ Request.withManifest.input) = .ok "import type \x7bT\x7d from 't';\nf();" ∧
      Request.withManifest.configuration.flag? "noEmit" ≠ some true ∧
      ((Session.ofText "import type \x7bT\x7d from 't';\nf();").compile (Engine.lexical ⟨""⟩)
        .withManifest).2.tree.readBytes ⟨"a.js"⟩ = .ok "f();".toUTF8 := by
  have htext : (Session.ofText "import type \x7bT\x7d from 't';\nf();").tree.readText
      (Path.join ⟨""⟩ Request.withManifest.input) = .ok "import type \x7bT\x7d from 't';\nf();" := by
    decide +kernel
  obtain ⟨program, name, out, -, -, -, hout, -, hwritten⟩ := artifact_of_compile
    htext (by decide)
  have hread := hwritten rfl (by decide +kernel)
  have herased : Erasure.erase (SourceFile.ofText Request.withManifest.input.text
      "import type \x7bT\x7d from 't';\nf();")
      (Request.withManifest.configuration.isSet "removeComments") = "f();" := by
    decide +kernel
  rw [hout, herased] at hread
  exact ⟨htext, by decide, hread⟩

end ModuleBuild
