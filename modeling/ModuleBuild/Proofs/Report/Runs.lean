import ModuleBuild.Report
import Mathlib.Data.List.Induction

/-!
# Reports to a sink that fills up

A reporter is used step by step: the text of a file is made known, or diagnostics are reported. All
steps share one sink, one style and the known texts. A sink with a capacity may be full in the middle
of a diagnostic; the step then fails and so does every later step that has something to write, but what
the sink has taken is always the beginning of what the steps write to a sink that takes all.

The text of a step is said without the reporter: `Step.output` looks up the texts of files in the steps
before. `Sink.Holds` is the invariant that ties the sink to the texts written so far.

Main statement: `run_full_sink`.
-/

namespace ModuleBuild

/-! ## Sinks -/

namespace Sink

/-- The sink was given a text, in any number of writes, and has taken as much of it as it can. -/
def Holds (s : Sink) (text : String) : Prop :=
  s.bytes = s.capacity.elim text.toUTF8 (text.toUTF8.extract 0)

/-- Whether a text is longer than what the sink takes over its whole life. -/
def overflows (s : Sink) (text : String) : Bool :=
  s.capacity.elim false fun capacity => capacity < text.utf8ByteSize

variable {s : Sink} {text : String}

theorem overflows_congr {t : Sink} (h : t.capacity = s.capacity) (text : String) :
    t.overflows text = s.overflows text := by
  unfold overflows
  rw [h]

theorem overflows_append (h : s.overflows text = true) (more : String) :
    s.overflows (text ++ more) = true := by
  unfold overflows at *
  cases hcapacity : s.capacity with
  | none => simp [hcapacity] at h
  | some capacity =>
    simp only [hcapacity, Option.elim_some, decide_eq_true_eq] at h ⊢
    rw [String.utf8ByteSize_append]
    omega

/-- A full sink takes no more. -/
theorem Holds.append (h : s.Holds text) (hfull : s.overflows text = true) (more : String) :
    s.Holds (text ++ more) := by
  unfold Holds overflows at *
  cases hcapacity : s.capacity with
  | none => simp [hcapacity] at hfull
  | some capacity =>
    simp only [hcapacity, Option.elim_some, decide_eq_true_eq] at h hfull ⊢
    have hnone : more.toByteArray.extract 0 (capacity - text.utf8ByteSize) = ByteArray.empty := by
      apply ByteArray.extract_eq_empty_iff.mpr
      omega
    rw [h, String.toUTF8_eq_toByteArray, String.toUTF8_eq_toByteArray, String.toByteArray_append,
      ByteArray.extract_append, String.size_toByteArray, Nat.zero_sub, hnone, ByteArray.append_empty]

/-- A write adds its text, and fails if there is any and it goes beyond the capacity. -/
theorem Holds.write (h : s.Holds text) (more : String) :
    (s.write more).1.Holds (text ++ more) ∧
      (s.write more).2 =
        if more ≠ "" ∧ s.overflows (text ++ more) = true then .error .full else .ok () := by
  have happend : (text ++ more).toUTF8 = text.toUTF8 ++ more.toUTF8 := String.toByteArray_append
  have htext : text.toUTF8.size = text.utf8ByteSize := rfl
  have hmore : more.toUTF8.size = more.utf8ByteSize := rfl
  have hempty : more.utf8ByteSize = 0 ↔ more = "" := String.utf8ByteSize_eq_zero_iff
  unfold Holds overflows Sink.write at *
  cases hcapacity : s.capacity with
  | none =>
    simp only [hcapacity, Option.elim_none] at h ⊢
    simp [h]
  | some capacity =>
    simp only [hcapacity, Option.elim_some, decide_eq_true_eq] at h ⊢
    have hsize : s.bytes.size = min capacity text.utf8ByteSize := by
      rw [h, ByteArray.size_extract, htext, Nat.sub_zero]
    have hparts : (text ++ more).toUTF8.extract 0 capacity =
        s.bytes ++ more.toUTF8.extract 0 (capacity - text.utf8ByteSize) := by
      rw [happend, ByteArray.extract_append, Nat.zero_sub, htext, ← h]
    rw [hsize, hmore, String.utf8ByteSize_append]
    split
    · next hfits =>
      constructor
      · show s.bytes ++ more.toUTF8 = (text ++ more).toUTF8.extract 0 capacity
        have hall : more.toUTF8.extract 0 (capacity - text.utf8ByteSize) = more.toUTF8 := by
          rw [← Nat.max_eq_left (b := more.toUTF8.size) (a := capacity - text.utf8ByteSize) (by omega)]
          exact ByteArray.extract_zero_max_size
        rw [hparts, hall]
      · rw [if_neg]
        rintro ⟨hne, hover⟩
        rw [Ne, ← hempty] at hne
        omega
    · next hfits =>
      have hroom : capacity - min capacity text.utf8ByteSize = capacity - text.utf8ByteSize := by omega
      constructor
      · show s.bytes ++ more.toUTF8.extract 0 (capacity - min capacity text.utf8ByteSize) =
          (text ++ more).toUTF8.extract 0 capacity
        rw [hparts, hroom]
      · rw [if_pos]
        refine ⟨fun hnil => ?_, by omega⟩
        rw [← hempty] at hnil
        omega

end Sink

namespace Reporter

/-! ## Single reports -/

/-- What a reporter writes for the diagnostics that have a location. -/
def output (r : Reporter) (ds : List Diagnostic) : String :=
  String.join (ds.filterMap fun d => d.location.map (r.written d))

/-- Whether one of the diagnostics that have a location is an error. -/
def finds (ds : List Diagnostic) : Bool := ds.any fun d => d.location.isSome && d.severity = .error

variable {r : Reporter} {text : String}

/-! A diagnostic without a location is passed over, and any other is written first. -/

section Cons

variable {d : Diagnostic} {location : Location} {sink : Sink}

theorem report_cons_of_eq_none (h : d.location = none) (ds : List Diagnostic) :
    r.report (d :: ds) = r.report ds := by
  rw [report, h]

theorem report_cons_of_write_error (h : d.location = some location) {e : IoError}
    (hwrite : r.sink.write (r.written d location) = (sink, .error e)) (ds : List Diagnostic) :
    r.report (d :: ds) = ({ r with sink }, .error e) := by
  have hwriter : Writer.write r.sink (r.written d location) = (sink, .error e) := hwrite
  rw [report, h]
  simp only [hwriter]

theorem report_cons_of_write_ok (h : d.location = some location)
    (hwrite : r.sink.write (r.written d location) = (sink, .ok ())) (ds : List Diagnostic) :
    r.report (d :: ds) = ((report { r with sink } ds).1,
      (report { r with sink } ds).2.map (d.severity.isError || ·)) := by
  have hwriter : Writer.write r.sink (r.written d location) = (sink, .ok ()) := hwrite
  rw [report, h]
  simp only [hwriter]

theorem output_cons_of_eq_none (h : d.location = none) (ds : List Diagnostic) :
    r.output (d :: ds) = r.output ds := by
  simp [output, h]

theorem output_cons_of_eq_some (h : d.location = some location) (ds : List Diagnostic) :
    r.output (d :: ds) = r.written d location ++ r.output ds := by
  simp [output, h, String.join_cons]

theorem finds_cons_of_eq_none (h : d.location = none) (ds : List Diagnostic) :
    finds (d :: ds) = finds ds := by
  simp [finds, h]

theorem finds_cons_of_eq_some (h : d.location = some location) (ds : List Diagnostic) :
    finds (d :: ds) = (d.severity.isError || finds ds) := by
  have herror : d.severity.isError = decide (d.severity = .error) := by
    rw [Bool.eq_iff_iff, Severity.isError_iff, decide_eq_true_eq]
  rw [herror]
  simp [finds, h]

end Cons

/-- A report changes nothing but the bytes in the sink. -/
theorem report_fst (r : Reporter) (ds : List Diagnostic) :
    ∃ sink : Sink, sink.capacity = r.sink.capacity ∧ (r.report ds).1 = { r with sink } := by
  induction ds generalizing r with
  | nil => exact ⟨r.sink, rfl, rfl⟩
  | cons d ds ih =>
    cases hlocation : d.location with
    | none =>
      rw [report_cons_of_eq_none hlocation]
      exact ih r
    | some location =>
      have hcapacity := Sink.capacity_write r.sink (r.written d location)
      cases hwrite : r.sink.write (r.written d location) with
      | mk sink result =>
        rw [hwrite] at hcapacity
        cases result with
        | error e =>
          rw [report_cons_of_write_error hlocation hwrite]
          exact ⟨sink, hcapacity, rfl⟩
        | ok _ =>
          rw [report_cons_of_write_ok hlocation hwrite]
          obtain ⟨last, hlast, hrest⟩ := ih { r with sink }
          exact ⟨last, hlast.trans hcapacity, hrest⟩

/-- A report adds what it writes, up to the capacity. It fails if it writes anything that goes beyond
the capacity, and otherwise tells whether it has found an error. -/
theorem report_of_holds (h : r.sink.Holds text) (ds : List Diagnostic) :
    (r.report ds).1.sink.Holds (text ++ r.output ds) ∧
      (r.report ds).2 =
        if r.output ds ≠ "" ∧ r.sink.overflows (text ++ r.output ds) = true then .error .full
        else .ok (finds ds) := by
  induction ds generalizing r text with
  | nil =>
    constructor
    · simpa [report, output, String.join_nil] using h
    · simp [report, output, String.join_nil, finds]
  | cons d ds ih =>
    cases hlocation : d.location with
    | none =>
      rw [report_cons_of_eq_none hlocation, output_cons_of_eq_none hlocation,
        finds_cons_of_eq_none hlocation]
      exact ih h
    | some location =>
      obtain ⟨hholds, hanswer⟩ := h.write (r.written d location)
      have hcapacity := Sink.capacity_write r.sink (r.written d location)
      rw [output_cons_of_eq_some hlocation, finds_cons_of_eq_some hlocation, ← String.append_assoc]
      cases hwrite : r.sink.write (r.written d location) with
      | mk sink result =>
        rw [hwrite] at hholds hanswer hcapacity
        have hover := Sink.overflows_congr hcapacity
        by_cases hfull : r.written d location ≠ "" ∧
            r.sink.overflows (text ++ r.written d location) = true
        · -- The sink is full, and the diagnostics behind this one are lost.
          rw [if_pos hfull] at hanswer
          obtain rfl : result = .error .full := hanswer
          have hmore := Sink.overflows_append hfull.2 (r.output ds)
          rw [report_cons_of_write_error hlocation hwrite]
          refine ⟨hholds.append ((hover _).trans hfull.2) _, ?_⟩
          rw [if_pos ⟨fun hnil => hfull.1 (String.append_eq_empty_iff.mp hnil).1, hmore⟩]
        · rw [if_neg hfull] at hanswer
          obtain rfl : result = .ok () := hanswer
          obtain ⟨hrest, hanswerRest⟩ := @ih { r with sink } _ hholds
          rw [report_cons_of_write_ok hlocation hwrite]
          refine ⟨hrest, ?_⟩
          have hsame : ({ r with sink } : Reporter).output ds = r.output ds := rfl
          dsimp only
          rw [hanswerRest, hsame, hover]
          -- If nothing is left to write, the text is as long as it was.
          by_cases hnil : r.output ds = ""
          · rw [hnil, String.append_empty, String.append_empty, if_neg (by simp), if_neg hfull]
            rfl
          · have hne : r.written d location ++ r.output ds ≠ "" :=
              fun hcon => hnil (String.append_eq_empty_iff.mp hcon).2
            by_cases hlong : r.sink.overflows (text ++ r.written d location ++ r.output ds) = true
            · rw [if_pos ⟨hnil, hlong⟩, if_pos ⟨hne, hlong⟩]
              rfl
            · rw [if_neg fun hcon => hlong hcon.2, if_neg fun hcon => hlong hcon.2]
              rfl

/-! ## Steps -/

/-- What is done with a reporter. -/
inductive Step where
  /-- The text of a file is made known. -/
  | add (file : SourceFile)
  /-- Diagnostics are reported. -/
  | report (diagnostics : List Diagnostic)

/-- Takes a step. Making a text known writes nothing and finds no error. -/
def step (r : Reporter) : Step → Reporter × Except IoError Bool
  | .add file => (r.addSource file, .ok false)
  | .report ds => r.report ds

/-- The reporter behind some steps. -/
def run (r : Reporter) (steps : List Step) : Reporter := steps.foldl (fun r s => (r.step s).1) r

namespace Step

/-- The diagnostics that a step reports. -/
def diagnostics : Step → List Diagnostic
  | add _ => []
  | report ds => ds

/-- The text that a step makes known for a file name. -/
def textOf? (name : String) : Step → Option String
  | add file => if file.name = name then some file.text else none
  | report _ => none

/-- What a diagnostic at a location is written as behind some steps: as a snippet in the pretty style if
the text of its file is known, from the text that was added last, and as a line otherwise. -/
def rendering (style : Style) (before : List Step) (d : Diagnostic) (location : Location) : String :=
  match style, (before.filterMap (textOf? location.file)).getLast? with
  | .pretty color, some text =>
    Snippet.write color d.severity d.code (d.message.flatten "\n") location.file location.span text
  | _, _ => line location d.severity (d.message.flatten "\n") ++ "\n"

/-- What a step behind other steps has to write: its diagnostics that have a location, in order. -/
def output (style : Style) (before : List Step) (s : Step) : String :=
  String.join (s.diagnostics.filterMap fun d => d.location.map (rendering style before d))

/-- What each of the steps behind other steps has to write. -/
def outputs (style : Style) (before : List Step) : List Step → List String
  | [] => []
  | s :: steps => s.output style before :: outputs style (before ++ [s]) steps

theorem outputs_concat (style : Style) (before steps : List Step) (s : Step) :
    outputs style before (steps ++ [s]) = outputs style before steps ++ [s.output style (before ++ steps)] := by
  induction steps generalizing before with
  | nil => simp [outputs]
  | cons t steps ih =>
    rw [List.cons_append, outputs, ih, outputs]
    simp

end Step

/-! ## Runs -/

theorem run_concat (r : Reporter) (steps : List Step) (s : Step) :
    r.run (steps ++ [s]) = ((r.run steps).step s).1 := by
  simp [run]

/-- The style and the capacity stay, and in the pretty style the texts added last are known. -/
theorem run_keeps (r : Reporter) (steps : List Step) :
    (r.run steps).style = r.style ∧ (r.run steps).sink.capacity = r.sink.capacity ∧
      ∀ color, r.style = .pretty color → ∀ name, (r.run steps).sources.lookup name =
        ((steps.filterMap (Step.textOf? name)).getLast?).or (r.sources.lookup name) := by
  induction steps using List.reverseRecOn with
  | nil => exact ⟨rfl, rfl, fun _ _ _ => rfl⟩
  | append_singleton steps s ih =>
    obtain ⟨hstyle, hcapacity, hsources⟩ := ih
    rw [run_concat]
    cases s with
    | report ds =>
      obtain ⟨sink, hsink, hreport⟩ := report_fst (r.run steps) ds
      simp only [step, hreport]
      refine ⟨hstyle, hsink.trans hcapacity, fun color hcolor name => ?_⟩
      rw [hsources color hcolor]
      simp [Step.textOf?]
    | add file =>
      refine ⟨?_, ?_, fun color hcolor name => ?_⟩
      · rw [← hstyle, step, addSource]
        split <;> rfl
      · rw [← hcapacity, step, sink_addSource]
      · have hpretty : (r.run steps).style = .pretty color := hstyle.trans hcolor
        have hadded : ((r.run steps).addSource file).sources =
            (file.name, file.text) :: (r.run steps).sources := by simp [addSource, hpretty]
        rw [step, hadded, List.lookup_cons, List.filterMap_append]
        by_cases hname : file.name = name
        · subst hname
          simp [Step.textOf?]
        · have hother : (name == file.name) = false := by simpa using Ne.symm hname
          rw [hother, hsources color hcolor]
          simp [Step.textOf?, hname]

/-- A reporter to an unused sink. -/
def fresh (style : Style) (capacity : Option Nat) : Reporter := { sink := { capacity }, style }

section Fresh

variable (style : Style) (capacity : Option Nat)

theorem written_run (before : List Step) (d : Diagnostic) (location : Location) :
    ((fresh style capacity).run before).written d location =
      Step.rendering style before d location := by
  obtain ⟨hstyle, -, hsources⟩ := run_keeps (fresh style capacity) before
  unfold written Step.rendering
  rw [hstyle]
  show (match style, ((fresh style capacity).run before).sources.lookup location.file with
    | .pretty color, some text => _
    | _, _ => _) = _
  cases hcase : style with
  | plain => rfl
  | pretty color =>
    subst hcase
    rw [hsources color rfl]
    simp [fresh]

theorem output_run (before : List Step) (ds : List Diagnostic) :
    ((fresh style capacity).run before).output ds = (Step.report ds).output style before := by
  have hwritten : (fun d : Diagnostic => d.location.map (((fresh style capacity).run before).written d)) =
      fun d => d.location.map (Step.rendering style before d) := by
    funext d
    congr 1
    funext location
    exact written_run style capacity before d location
  unfold output Step.output
  rw [hwritten]
  rfl

/-- The sink behind some steps holds what they have to write. -/
theorem holds_run (steps : List Step) :
    ((fresh style capacity).run steps).sink.Holds (String.join (Step.outputs style [] steps)) := by
  induction steps using List.reverseRecOn with
  | nil =>
    cases capacity with
    | none => rfl
    | some n =>
      show ByteArray.empty = ByteArray.empty.extract 0 n
      rw [ByteArray.extract_eq_empty_iff.mpr]
      simp
  | append_singleton steps s ih =>
    rw [run_concat, Step.outputs_concat, String.join_append, List.nil_append]
    cases s with
    | add file => simpa [step, Step.output, Step.diagnostics, String.join_cons, String.join_nil] using ih
    | report ds =>
      have hreport := (report_of_holds ih ds).1
      rw [output_run] at hreport
      simpa [step, String.join_cons, String.join_nil] using hreport

end Fresh

/-- A step fails if it has something to write and all that was to be written so far is longer than the
capacity; otherwise it tells whether it has found an error. -/
theorem step_run (style : Style) (capacity : Option Nat) (before : List Step) (s : Step) :
    (((fresh style capacity).run before).step s).2 =
      if s.output style before ≠ "" ∧ ((fresh style capacity).run before).sink.overflows
          (String.join (Step.outputs style [] (before ++ [s]))) = true then .error .full
      else .ok (finds s.diagnostics) := by
  rw [Step.outputs_concat, String.join_append, List.nil_append, String.join_cons, String.join_nil,
    String.append_empty]
  cases s with
  | add file =>
    have hnothing : (Step.add file).output style before = "" := rfl
    rw [if_neg fun hcon => hcon.1 hnothing]
    rfl
  | report ds =>
    have hreport := (report_of_holds (holds_run style capacity before) ds).2
    rw [output_run] at hreport
    exact hreport

/-- What `outputs` says is what steps write to a sink that takes all. A sink with a capacity has taken the
beginning of it, up to the capacity. A step fails exactly if it has something to write and what is to be
written up to its end is longer than the capacity, and a step that does not fail tells whether one of its
diagnostics with a location is an error. -/
theorem run_full_sink (style : Style) (capacity : Nat) (steps : List Step) :
    ((fresh style none).run steps).sink.bytes =
        (String.join (Step.outputs style [] steps)).toUTF8 ∧
      ((fresh style (some capacity)).run steps).sink.bytes =
        (String.join (Step.outputs style [] steps)).toUTF8.extract 0 capacity ∧
      ∀ before s,
        ((fresh style none).run (before ++ [s])).sink.bytes =
          ((fresh style none).run before).sink.bytes ++ (s.output style before).toUTF8 ∧
        (((fresh style none).run before).step s).2 = .ok (finds s.diagnostics) ∧
        (((fresh style (some capacity)).run before).step s).2 =
          if s.output style before ≠ "" ∧
              capacity < (String.join (Step.outputs style [] (before ++ [s]))).utf8ByteSize then
            .error .full
          else .ok (finds s.diagnostics) := by
  have hcapacity : ∀ (c : Option Nat) before, ((fresh style c).run before).sink.capacity = c :=
    fun c before => (run_keeps (fresh style c) before).2.1
  have hall : ∀ before, ((fresh style none).run before).sink.bytes =
      (String.join (Step.outputs style [] before)).toUTF8 := by
    intro before
    have hholds := holds_run style none before
    unfold Sink.Holds at hholds
    rwa [hcapacity] at hholds
  refine ⟨hall steps, ?_, fun before s => ⟨?_, ?_, ?_⟩⟩
  · have hholds := holds_run style (some capacity) steps
    unfold Sink.Holds at hholds
    rwa [hcapacity] at hholds
  · rw [hall, hall, Step.outputs_concat, String.join_append, String.toUTF8_eq_toByteArray,
      String.toByteArray_append]
    simp [String.join_cons, String.join_nil]
  · rw [step_run]
    simp [Sink.overflows, hcapacity]
  · rw [step_run]
    simp [Sink.overflows, hcapacity]

end Reporter

end ModuleBuild
