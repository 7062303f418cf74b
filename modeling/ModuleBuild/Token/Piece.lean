import ModuleBuild.Text.Blank
import ModuleBuild.Text.Bytes
import ModuleBuild.Token
import ModuleBuild.Token.LexicalError
import ModuleBuild.Token.Reading

/-!
# Pieces of source text

Source text falls into pieces: blank characters, comments, tokens, and stretches that are none of
these. `Piece.read` takes one piece off the front of a text. Two things about the text before it
decide how: whether a slash begins a regular expression, and whether a closing brace goes on with
the template whose substitution it ends.

Main statement: `read_append`, by which a piece and the rest are the text they were read from. Since
blanks, comments and errors are pieces like any other, a text is the concatenation of its pieces.
-/

namespace ModuleBuild

/-- What a piece of source text is. -/
inductive Piece.Kind where
  /-- A character that separates tokens. -/
  | blank
  /-- A comment up to the end of its line. -/
  | lineComment
  /-- A comment between `/*` and `*/`. -/
  | blockComment
  /-- A name or keyword. -/
  | identifier
  /-- A number. -/
  | number
  /-- A quoted string. -/
  | string
  /-- One stretch of a template. -/
  | template
  /-- A regular expression. -/
  | regex
  /-- One punctuation character. -/
  | punct
  /-- Text that cannot be read. -/
  | fault (error : LexicalError)
  deriving DecidableEq, Repr

/-- A classified stretch of source text. -/
structure Piece where
  /-- The class. -/
  kind : Piece.Kind
  /-- The characters. -/
  text : List Char
  deriving DecidableEq, Repr

namespace Piece

/-! ## Characters -/

/-- Whether a name may begin with this character. -/
def startsName (c : Char) : Bool := Text.isAlphabetic c || c = '_' || c = '$' || c = '#'

/-- Whether a name may go on with this character. -/
def continuesName (c : Char) : Bool := Text.isAlphanumeric c || c = '_' || c = '$'

/-- The ASCII characters that are neither controls, blanks, letters nor digits. -/
def isAsciiPunctuation (c : Char) : Bool :=
  (33 ≤ c.toNat && c.toNat ≤ 47) || (58 ≤ c.toNat && c.toNat ≤ 64) ||
    (91 ≤ c.toNat && c.toNat ≤ 96) || (123 ≤ c.toNat && c.toNat ≤ 126)

/-! ## Reading one piece -/

/-- A piece of kind `kind` if the reading found its closing mark, and otherwise the error. -/
def ofReading (opening : List Char) (kind : Piece.Kind) (error : LexicalError) (r : Reading) :
    Piece × List Char :=
  (⟨if r.closed then kind else .fault error, opening ++ r.taken⟩, r.rest)

/-- The comment up to the end of the line whose first slash is `c`. -/
def lineComment (c : Char) (cs : List Char) : Piece × List Char :=
  (⟨.lineComment, c :: cs.takeWhile (· != '\n')⟩, cs.dropWhile (· != '\n'))

/-- The name that begins with `c`. -/
def name (c : Char) (cs : List Char) : Piece × List Char :=
  (⟨.identifier, c :: cs.takeWhile continuesName⟩, cs.dropWhile continuesName)

/-- The number that begins with `c`. It is hexadecimal if it begins with `0x` or `0X`. -/
def number (c : Char) (cs : List Char) : Piece × List Char :=
  let hexadecimal := c = '0' && (cs.head? = some 'x' || cs.head? = some 'X')
  let (taken, rest) := Reading.number hexadecimal c cs
  (⟨.number, c :: taken⟩, rest)

/-- The regular expression behind the opening slash `c`, with its flags. -/
def regex (c : Char) (cs : List Char) : Piece × List Char :=
  let r := Reading.regex false cs
  if r.closed then
    (⟨.regex, c :: r.taken ++ r.rest.takeWhile Char.isAlpha⟩, r.rest.dropWhile Char.isAlpha)
  else (⟨.fault .unterminatedRegex, c :: r.taken⟩, r.rest)

/-- Takes the piece off the front of `c :: cs`. `slashOpensRegex` and `braceResumesTemplate` say
what a slash and a closing brace mean at this place. -/
def read (slashOpensRegex braceResumesTemplate : Bool) (c : Char) (cs : List Char) :
    Piece × List Char :=
  if Text.isBlank c then (⟨.blank, [c]⟩, cs)
  else if c = '/' && cs.head? = some '/' then lineComment c cs
  else if c = '/' && cs.head? = some '*' then
    ofReading [c, '*'] .blockComment .unterminatedComment (Reading.blockComment cs.tail)
  else if c = '"' || c = '\'' then
    ofReading [c] .string .unterminatedString (Reading.string c cs)
  else if c = '\x60' || (c = '}' && braceResumesTemplate) then
    ofReading [c] .template .unterminatedTemplate (Reading.template cs)
  else if c.isDigit || (c = '.' && cs.head?.any Char.isDigit) then number c cs
  else if c = '/' && slashOpensRegex then regex c cs
  else if startsName c then name c cs
  else if isAsciiPunctuation c && c != '\\' then (⟨.punct, [c]⟩, cs)
  else (⟨.fault .invalidCharacter, [c]⟩, cs)

/-! ## Nothing is lost -/

private theorem ofReading_append {opening cs : List Char} {kind : Piece.Kind}
    {error : LexicalError} {r : Reading} (h : r.taken ++ r.rest = cs) :
    (ofReading opening kind error r).1.text ++ (ofReading opening kind error r).2 =
      opening ++ cs := by
  simp [ofReading, h]

private theorem regex_append (c : Char) (cs : List Char) :
    (regex c cs).1.text ++ (regex c cs).2 = c :: cs := by
  have h := Reading.regex_taken_append false cs
  unfold regex
  dsimp only
  split <;> simp [h]

/-- A piece and what it leaves are the text it was read from. -/
theorem read_append (a b : Bool) (c : Char) (cs : List Char) :
    (read a b c cs).1.text ++ (read a b c cs).2 = c :: cs := by
  unfold read
  split
  · rfl
  split
  · simp [lineComment]
  split
  · next h =>
    obtain ⟨rfl, h⟩ : c = '/' ∧ cs.head? = some '*' := by simpa using h
    obtain ⟨ds, rfl⟩ : ∃ ds, cs = '*' :: ds := by
      cases cs with
      | nil => simp at h
      | cons d ds => exact ⟨ds, by simpa using h⟩
    exact ofReading_append (Reading.blockComment_taken_append ds)
  split
  · exact ofReading_append (Reading.string_taken_append c cs)
  split
  · exact ofReading_append (Reading.template_taken_append cs)
  split
  · simp [number, Reading.number_append]
  split
  · exact regex_append c cs
  split
  · simp [name]
  split <;> rfl

/-- A piece has at least one character. -/
theorem read_text_ne_nil (a b : Bool) (c : Char) (cs : List Char) :
    (read a b c cs).1.text ≠ [] := by
  unfold read ofReading lineComment number regex name
  dsimp only
  (repeat' split) <;> simp

/-- What a piece leaves is shorter than the text it was read from. -/
theorem read_rest_length_le (a b : Bool) (c : Char) (cs : List Char) :
    (read a b c cs).2.length ≤ cs.length := by
  have h := congrArg List.length (read_append a b c cs)
  have hne := List.length_pos_iff.2 (read_text_ne_nil a b c cs)
  simp only [List.length_append, List.length_cons] at h
  omega

/-! ## Pieces as tokens -/

/-- Whether the piece is a finished comment. -/
def isComment (p : Piece) : Bool := p.kind = .lineComment || p.kind = .blockComment

/-- The kind of token that the piece is; blanks and comments are none. -/
def tokenKind? (p : Piece) : Option Token.Kind :=
  match p.kind with
  | .blank | .lineComment | .blockComment => none
  | .identifier => some .identifier
  | .number => some .number
  | .string => some .string
  | .template => some .template
  | .regex => some .regex
  | .punct => some .punct
  | .fault _ => some .error

/-- The number of bytes of the piece. -/
def byteLength (p : Piece) : Nat := Text.byteLength p.text

/-- The span of the piece when it begins at `offset`. -/
def spanAt (p : Piece) (offset : Nat) : Span := ⟨offset, offset + p.byteLength⟩

/-- The token that the piece is when it begins at `offset`. -/
def token? (p : Piece) (offset : Nat) : Option Token :=
  p.tokenKind?.map fun kind =>
    match p.kind with
    | .fault error => { kind, span := p.spanAt offset, text := error.message, code := error.code }
    | _ => { kind, span := p.spanAt offset, text := String.ofList p.text }

/-- Whether the piece goes on with a template behind a substitution. -/
def resumesTemplate (p : Piece) : Bool :=
  (p.kind = .template || p.kind = .fault .unterminatedTemplate) && p.text.head? = some '}'

/-- Whether the piece is a stretch of a template that ends by opening a substitution. -/
def opensSubstitution (p : Piece) : Bool :=
  p.kind = .template && ['{', '$'].isPrefixOf p.text.reverse

end Piece

end ModuleBuild
