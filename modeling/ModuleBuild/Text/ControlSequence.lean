/-!
# Control sequences

What a terminal shows of a text. Control characters are commands, and an escape character opens a
sequence that is one; neither is shown. The exceptions are the tab and the characters that end a line
or a page, which are shown also within a sequence.

`visible` is the text without its control sequences. A text without control characters is all
visible, and nothing in the result is a control character that a terminal does not show.
-/

namespace ModuleBuild.Text

/-- Where in a control sequence a terminal is. -/
inductive Terminal where
  /-- Outside of all sequences. -/
  | ground
  /-- Behind the escape character. -/
  | escape
  /-- In an escape sequence of several characters. -/
  | designation
  /-- Behind `[`, among the parameters. -/
  | parameters
  /-- Behind `]`, in a command that the bell ends. -/
  | command
  /-- Behind `P`, where the parameters of a control string begin. -/
  | device
  /-- Among the parameters of a control string. -/
  | deviceParameters
  /-- Behind the parameters of a control string. -/
  | deviceIntermediate
  /-- In a control string. -/
  | controlString
  deriving DecidableEq, Repr

namespace Terminal

/-- Whether the character code of `c` lies between two others. -/
def between (low high : Nat) (c : Char) : Bool := low ≤ c.toNat && c.toNat ≤ high

/-- The control characters that are shown: tab, line feed, form feed and carriage return. -/
def isShownControl (c : Char) : Bool := c = '\t' || c = '\n' || c = '\x0c' || c = '\r'

/-- Whether a character outside of all sequences is shown. -/
def isVisible (c : Char) : Bool := isShownControl c || (0x20 ≤ c.toNat && c ≠ '\x7f')

/-- Whether a character that is not part of shown text is shown and begins such text. -/
def shows : Terminal → Char → Bool
  | ground, c => isVisible c
  | escape, c | designation, c | parameters, c => isShownControl c
  | _, _ => false

/-- Whether a character ends a control string: the byte that is the string terminator on terminals
with eight bits is part of its encoding. -/
def endsString (c : Char) : Bool := (String.utf8EncodeChar c).contains 0x9c

/-- Where the character behind the escape character leads. -/
def opened (c : Char) : Terminal :=
  if c = '[' then parameters
  else if c = ']' then command
  else if c = 'P' then device
  else if c = 'X' || c = '^' || c = '_' then controlString
  else if between 0x20 0x2f c then designation
  else if between 0x30 0x7e c then ground
  else escape

/-- Where a character leads. In every place an escape character begins a new sequence, and the
characters cancel and substitute end the sequence. -/
def next (t : Terminal) (c : Char) : Terminal :=
  if c = '\x18' || c = '\x1a' then ground
  else if c = '\x1b' then escape
  else
    match t with
    | ground => ground
    | escape => opened c
    | designation => if between 0x30 0x7e c then ground else t
    | parameters => if between 0x40 0x7e c then ground else t
    | command => if c = '\x07' then ground else t
    | device =>
      if between 0x20 0x2f c then deviceIntermediate
      else if c = ':' || between 0x40 0x7e c then controlString
      else if between 0x30 0x3f c then deviceParameters
      else t
    | deviceParameters =>
      if between 0x20 0x2f c then deviceIntermediate
      else if between 0x30 0x39 c || c = ';' then t
      else if between 0x3a 0x7e c then controlString
      else t
    | deviceIntermediate => if between 0x30 0x7e c then controlString else t
    | controlString => if endsString c then ground else t

/-- Where a character of shown text leads: a sequence that shown text interrupts goes on behind it,
unless a character beyond ASCII is in that text. -/
def afterShown (t : Terminal) (c : Char) : Terminal := if c.toNat < 0x80 then t else ground

/-- The characters that a terminal shows; `showing` is whether the character in front is shown. -/
def visible (t : Terminal) (showing : Bool) : List Char → List Char
  | [] => []
  | c :: cs =>
    if showing && isVisible c then c :: (t.afterShown c).visible true cs
    else if t.shows c then c :: (t.next c).visible true cs
    else (t.next c).visible false cs

theorem isVisible_of_shows {t : Terminal} {c : Char} (h : t.shows c = true) : isVisible c = true := by
  cases t <;> simp_all [shows, isVisible]

/-- All that is shown is visible outside of sequences too. -/
theorem isVisible_of_mem_visible {t : Terminal} {showing : Bool} {cs : List Char} {c : Char}
    (h : c ∈ t.visible showing cs) : isVisible c = true := by
  fun_induction visible t showing cs with
  | case1 => simp at h
  | case2 t showing d ds hd ih =>
    rcases List.mem_cons.1 h with rfl | h
    · simp_all
    · exact ih h
  | case3 t showing d ds _ hd ih =>
    rcases List.mem_cons.1 h with rfl | h
    · exact isVisible_of_shows hd
    · exact ih h
  | case4 t showing d ds _ _ ih => exact ih h

end Terminal

/-- What a terminal shows of a text. -/
def visible (s : String) : String := String.ofList (Terminal.ground.visible false s.toList)

example : visible "a\x1b[1mb\x1b]0;t\x07\x7fc" = "abc" := by decide +kernel
example : visible "\x1b[1\t;2\x01mx" = "\t;2x" := by decide +kernel

end ModuleBuild.Text
