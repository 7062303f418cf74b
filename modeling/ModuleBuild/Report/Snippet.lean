import ModuleBuild.Diagnostic
import ModuleBuild.Text.Blank
import ModuleBuild.Text.Bytes

/-!
# Snippets

A snippet shows a diagnostic with the line of source text that it is about:

    [TS1002] Error: Unterminated string literal.
       ╭─[ main.ts:2:9 ]
       │
     2 │ let s = 'open
    ───╯

Here lines end at more characters than elsewhere: at `\r`, `\n`, `\v`, `\f`, U+0085, U+2028 and
U+2029, where `\r\n` is one end. There is no empty line behind the last end, so the end of the text
belongs to the last line. A diagnostic that spans several lines shows none of them.

In colour, the header, the frame, the margin and every character of the line are painted one by one,
and the characters inside the span stand out.
-/

namespace ModuleBuild.Snippet

/-! ## Lines -/

/-- Whether a character ends a line. -/
def endsLine (c : Char) : Bool :=
  c = '\r' || c = '\n' || c = '\x0b' || c = '\x0c' || c = '\u0085' || c = '\u2028' || c = '\u2029'

/-- The lines of a text with their ends. -/
def linesOf : List Char → List (List Char)
  | [] => []
  | c :: cs =>
    if endsLine c && !(c = '\r' && cs.head? = some '\n') then [c] :: linesOf cs
    else
      match linesOf cs with
      | [] => [[c]]
      | l :: ls => (c :: l) :: ls

/-- A line of a text. -/
structure Line where
  /-- Its number, counted from zero. -/
  number : Nat
  /-- The offset at which it begins. -/
  start : Nat
  /-- Its characters, its end included. -/
  text : List Char
  deriving DecidableEq, Repr

/-- The last of the lines that begins at or before `offset`, when the first of them is line `number`
and begins at `start`. -/
def lineFrom (offset number start : Nat) : List (List Char) → Line
  | [] => ⟨number, start, []⟩
  | [l] => ⟨number, start, l⟩
  | l :: m :: ls =>
    let next := start + Text.byteLength l
    if next ≤ offset then lineFrom offset (number + 1) next (m :: ls) else ⟨number, start, l⟩

/-- The line of an offset. -/
def lineAt (text : List Char) (offset : Nat) : Line := lineFrom offset 0 0 (linesOf text)

/-- The number of characters that lie within the first `n` bytes. -/
def charsWithin : List Char → Nat → Nat
  | [], _ => 0
  | c :: cs, n => if c.utf8Size ≤ n then charsWithin cs (n - c.utf8Size) + 1 else 0

/-- The column of an offset in a line, counted in characters from zero. -/
def Line.column (l : Line) (offset : Nat) : Nat := charsWithin l.text (offset - l.start)

/-- A span as far as it lies in a text of `length` bytes. -/
def clamp (length : Nat) (s : Span) : Span :=
  let start := min s.start length
  ⟨start, min (max s.stop start) length⟩

/-! ## Colours -/

/-- A text in a colour, given by its terminal code; without colour the plain text. -/
def paint (color : Bool) (code text : String) : String :=
  if color then "\x1b[" ++ code ++ "m" ++ text ++ "\x1b[0m" else text

/-- The colour of the frame and the margin. -/
def frameColor : String := "38;5;246"

/-- The colour of source text outside the span. -/
def textColor : String := "38;5;249"

/-- The colour of the margin when no source text is shown. -/
def faintColor : String := "38;5;240"

/-- How a diagnostic of some severity looks. -/
structure Look where
  /-- The word in the header. -/
  title : String
  /-- The colour of the header. -/
  titleColor : String
  /-- The colour of the characters inside the span. -/
  labelColor : String
  /-- Whether the header is painted even where nothing else is. -/
  alwaysPainted : Bool := false

/-- The looks of the severities. -/
def lookOf : Severity → Look
  | .error => ⟨"Error", "31", "31", false⟩
  | .warning => ⟨"Warning", "33", "33", false⟩
  | .message => ⟨"Message", "36", "36", true⟩
  | .suggestion => ⟨"Advice", "38;5;147", "32", false⟩

/-! ## Rows -/

/-- `n` copies of a character. -/
def copies (n : Nat) (c : Char) : String := String.ofList (List.replicate n c)

/-- A text filled up with spaces on the left. -/
def padLeft (width : Nat) (s : String) : String := copies (width - s.length) ' ' ++ s

/-- A character of a source line at a column as it is shown: a tab goes on to the next column that is
a multiple of four, any other blank is a space. -/
def shown (column : Nat) (c : Char) : List Char :=
  if c = '\t' then List.replicate ((column / 4 + 1) * 4 - column) ' '
  else if Text.isBlank c then [' ']
  else [c]

/-- The characters of a line from `column` on, those between `first` and `last` in the label
colour. -/
def writeCells (color : Bool) (look : Look) (first last : Nat) (column : Nat) :
    List Char → String
  | [] => ""
  | c :: cs =>
    let code := if first ≤ column && column < last then look.labelColor else textColor
    (shown column c).foldl (fun s d => s ++ paint color code (String.ofList [d])) "" ++
      writeCells color look first last (column + 1) cs

/-- A line without the blanks at its end. -/
def trimEnd (cs : List Char) : List Char := (cs.reverse.dropWhile Text.isBlank).reverse

/-- The first row: number, severity and message. -/
def header (color : Bool) (look : Look) (code : Option Nat) (message : String) : String :=
  let number := code.elim "" fun n => "[TS" ++ toString n ++ "] "
  paint (color || look.alwaysPainted) look.titleColor (number ++ look.title ++ ":") ++ " " ++ message

/-- The snippet of a diagnostic about `span` of the file `name` with the given text. -/
def write (color : Bool) (severity : Severity) (code : Option Nat) (message name : String)
    (span : Span) (text : String) : String :=
  let chars := text.toList
  let look := lookOf severity
  let span := clamp (Text.byteLength chars) span
  let first := lineAt chars span.start
  let last := if span.start < span.stop then lineAt chars (span.stop - 1) else first
  let frame := paint color frameColor
  let lineNumber := toString (first.number + 1)
  let width := (toString (last.number + 1)).length
  let column := first.column span.start
  let margin := copies (width + 2) ' '
  let place := name ++ ":" ++ lineNumber ++ ":" ++ toString (column + 1)
  let middle :=
    if first.number = last.number then
      frame (padLeft width lineNumber ++ " │") ++ " " ++
        writeCells color look column (last.column span.stop) 0 (trimEnd first.text)
    else
      let mark := if span.start = first.start then "┆" else "│"
      paint color faintColor (copies (width + 1) ' ' ++ mark) ++ " "
  header color look code message ++ "\n" ++
    margin ++ frame "╭" ++ frame "─" ++ frame "[" ++ " " ++ place ++ " " ++ frame "]" ++ "\n" ++
    margin ++ frame "│" ++ "\n" ++
    " " ++ middle ++ "\n" ++
    frame (copies (width + 2) '─' ++ "╯") ++ "\n"

end ModuleBuild.Snippet
