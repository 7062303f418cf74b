import ModuleBuild.Text.Numeric

/-!
# Reading literals

How far a string, a template, a regular expression, a number or a block comment reaches. Each reader
is given the text behind the characters that opened the literal and splits it into the part that
belongs to the literal and the rest. Where the literal needs a closing mark, the reader also says
whether it found one.

A backslash takes the next character with it, whatever that is, so an escaped quote does not close
and an escaped line feed does not end the line.

Main statements: the lemmas ending in `_taken_append`, by which a reader loses and invents nothing.
-/

namespace ModuleBuild

/-- The outcome of reading up to a closing mark. -/
structure Reading where
  /-- The characters that belong to the literal, the closing mark included. -/
  taken : List Char
  /-- The characters behind it. -/
  rest : List Char
  /-- Whether the closing mark was found. -/
  closed : Bool
  deriving DecidableEq, Repr

namespace Reading

/-- The reading that stops before `rest` without a closing mark. -/
def stopped (rest : List Char) : Reading := ⟨[], rest, false⟩

/-- The reading that ends behind the closing mark. -/
def complete (mark rest : List Char) : Reading := ⟨mark, rest, true⟩

/-- The same reading with one more character in front. -/
def cons (c : Char) (r : Reading) : Reading := { r with taken := c :: r.taken }

/-- A string up to the quote that closes it; an unescaped line feed ends it unclosed. -/
def string (quote : Char) : List Char → Reading
  | [] => stopped []
  | [c] =>
    if c = '\n' then stopped [c]
    else if c = '\\' then cons c (stopped [])
    else if c = quote then complete [c] []
    else cons c (stopped [])
  | c :: d :: cs =>
    if c = '\n' then stopped (c :: d :: cs)
    else if c = '\\' then cons c (cons d (string quote cs))
    else if c = quote then complete [c] (d :: cs)
    else cons c (string quote (d :: cs))

/-- A template up to the back quote that closes it or the `${` that opens a substitution. -/
def template : List Char → Reading
  | [] => stopped []
  | [c] =>
    if c = '\\' then cons c (stopped [])
    else if c = '\x60' then complete [c] []
    else cons c (stopped [])
  | c :: d :: cs =>
    if c = '\\' then cons c (cons d (template cs))
    else if c = '\x60' then complete [c] (d :: cs)
    else if c = '$' ∧ d = '{' then complete [c, d] cs
    else cons c (template (d :: cs))

/-- A regular expression up to the slash that closes it; a slash inside a class `[...]` does not,
and an unescaped line feed ends it unclosed. -/
def regex (inClass : Bool) : List Char → Reading
  | [] => stopped []
  | [c] =>
    if c = '\n' then stopped [c]
    else if c = '/' ∧ inClass = false then complete [c] []
    else cons c (stopped [])
  | c :: d :: cs =>
    if c = '\n' then stopped (c :: d :: cs)
    else if c = '\\' then cons c (cons d (regex inClass cs))
    else if c = '[' then cons c (regex true (d :: cs))
    else if c = ']' then cons c (regex false (d :: cs))
    else if c = '/' ∧ inClass = false then complete [c] (d :: cs)
    else cons c (regex inClass (d :: cs))

/-- A block comment up to its first `*/`. -/
def blockComment : List Char → Reading
  | [] => stopped []
  | [c] => cons c (stopped [])
  | c :: d :: cs =>
    if c = '*' ∧ d = '/' then complete [c, d] cs else cons c (blockComment (d :: cs))

/-- Whether a number goes on with `c` after `previous`. A sign belongs to it only behind an exponent
mark, and hexadecimal numbers have none. -/
def continuesNumber (hexadecimal : Bool) (previous c : Char) : Bool :=
  c.isAlphanum || c = '.' || c = '_' ||
    ((c = '+' || c = '-') && (previous = 'e' || previous = 'E') && !hexadecimal)

/-- The characters with which a number goes on, and the rest. -/
def number (hexadecimal : Bool) (previous : Char) : List Char → List Char × List Char
  | [] => ([], [])
  | c :: cs =>
    if continuesNumber hexadecimal previous c then
      let (taken, rest) := number hexadecimal c cs
      (c :: taken, rest)
    else ([], c :: cs)

/-! ## Nothing is lost -/

@[simp] theorem stopped_taken (r : List Char) : (stopped r).taken = [] := rfl
@[simp] theorem stopped_rest (r : List Char) : (stopped r).rest = r := rfl
@[simp] theorem complete_taken (m r : List Char) : (complete m r).taken = m := rfl
@[simp] theorem complete_rest (m r : List Char) : (complete m r).rest = r := rfl
@[simp] theorem cons_taken (c : Char) (r : Reading) : (cons c r).taken = c :: r.taken := rfl
@[simp] theorem cons_rest (c : Char) (r : Reading) : (cons c r).rest = r.rest := rfl
@[simp] theorem stopped_closed (r : List Char) : (stopped r).closed = false := rfl
@[simp] theorem complete_closed (m r : List Char) : (complete m r).closed = true := rfl
@[simp] theorem cons_closed (c : Char) (r : Reading) : (cons c r).closed = r.closed := rfl

theorem string_taken_append (quote : Char) (cs : List Char) :
    (string quote cs).taken ++ (string quote cs).rest = cs := by
  fun_induction string quote cs <;> simp_all

theorem template_taken_append (cs : List Char) :
    (template cs).taken ++ (template cs).rest = cs := by
  fun_induction template cs <;> simp_all

theorem regex_taken_append (inClass : Bool) (cs : List Char) :
    (regex inClass cs).taken ++ (regex inClass cs).rest = cs := by
  fun_induction regex inClass cs <;> simp_all

theorem blockComment_taken_append (cs : List Char) :
    (blockComment cs).taken ++ (blockComment cs).rest = cs := by
  fun_induction blockComment cs <;> simp_all

theorem number_append (hexadecimal : Bool) (previous : Char) (cs : List Char) :
    (number hexadecimal previous cs).1 ++ (number hexadecimal previous cs).2 = cs := by
  fun_induction number hexadecimal previous cs <;> simp_all

end Reading

end ModuleBuild
