import ModuleBuild.Text.Bytes

/-!
# Lines and columns

A line table holds the byte offsets at which the lines of a text begin. Only the line feed ends a
line. Given an offset, the table finds its line by binary search, and the column is counted in
characters on the text. A table may be asked about another text than the one it was made from: then
a column that does not fall between two characters is counted in bytes.
-/

namespace ModuleBuild

/-- The offsets at which the lines of a text begin. -/
structure LineTable where
  /-- The offsets in ascending order; the first line begins at zero. -/
  starts : Array Nat
  /-- Every text has a first line. -/
  nonempty : 0 < starts.size

namespace LineTable

/-- The offsets behind the line feeds of a text that begins at `offset`. -/
def startsBehind (offset : Nat) : List Char → List Nat
  | [] => []
  | c :: cs =>
    let next := offset + c.utf8Size
    if c = '\n' then next :: startsBehind next cs else startsBehind next cs

/-- The line table of a text. -/
def ofText (text : String) : LineTable :=
  ⟨(0 :: startsBehind 0 text.toList).toArray, by simp⟩

/-- The number of lines. -/
def lineCount (t : LineTable) : Nat := t.starts.size

/-- The last line between `low` and `high` that begins at or before `offset`, if line `low` does and
line `high` does not. -/
def search (t : LineTable) (offset low high : Nat) : Nat :=
  if low + 1 < high then
    let middle := (low + high) / 2
    if t.starts[middle]?.any (· ≤ offset) then search t offset middle high
    else search t offset low middle
  else low
termination_by high - low

/-- The line of an offset: the last one that begins at or before it. -/
def lineOf (t : LineTable) (offset : Nat) : Nat := t.search offset 0 t.starts.size

/-- The offset at which a line begins; zero for a line that the table does not have. -/
def startOf (t : LineTable) (line : Nat) : Nat := t.starts[line]?.getD 0

/-- The line and the column of an offset of `text`, both counted from zero. An offset behind the end
counts as the end. -/
def position (t : LineTable) (text : String) (offset : Nat) : Nat × Nat :=
  let offset := min offset (Text.byteLength text.toList)
  let line := t.lineOf offset
  let start := t.startOf line
  match Text.slice? text.toList start offset with
  | some before => (line, before.length)
  | none => (line, offset - start)

end LineTable

end ModuleBuild
