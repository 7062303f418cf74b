import ModuleBuild.Source.File

/-!
# Erasure

The lexical engine compiles by leaving things out: import declarations of types only, and comments
if that is asked for. Behind such an import the rest of its line goes too, if nothing but blanks
stands there.

The spans to be left out may overlap. They are taken in the order of their beginnings; one that
begins inside an earlier one only makes the gap longer.
-/

namespace ModuleBuild.Erasure

/-- The span with the rest of the line and its line feed, if there is nothing else on the line. -/
def withRestOfLine (text : List Char) (span : Span) : Span :=
  let rest := (Text.dropBytes? text span.stop).getD []
  let line := rest.takeWhile (· != '\n')
  if line.length < rest.length && line.all Text.isBlank then
    ⟨span.start, span.stop + Text.byteLength line + 1⟩
  else span

/-- The spans that are left out of a file, in the order of their beginnings. -/
def spans (file : SourceFile) (removeComments : Bool) : List Span :=
  let imports := (file.statements.filter Statement.isTypeOnlyImport).map fun s =>
    withRestOfLine file.text.toList s.span
  let comments := if removeComments then file.comments else []
  (imports ++ comments).mergeSort (fun a b => a.start ≤ b.start)

/-- The text from the byte `cursor` on without the spans; `none` if a span does not fall between
characters of the text. -/
def cut? (text : List Char) (cursor : Nat) : List Span → Option (List Char)
  | [] => Text.dropBytes? text cursor
  | s :: ss =>
    if s.start < cursor then cut? text (max cursor s.stop) ss
    else
      (Text.slice? text cursor s.start).bind fun kept =>
        (cut? text s.stop ss).map fun rest => kept ++ rest

/-- The text of a file without what is left out. -/
def erase (file : SourceFile) (removeComments : Bool) : String :=
  String.ofList ((cut? file.text.toList 0 (spans file removeComments)).getD [])

end ModuleBuild.Erasure
