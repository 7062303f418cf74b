import ModuleBuild.Token.Context

/-!
# Lexing

A lexer stands at a place in a source text and knows the context there. One `step` takes the next
piece; `next` goes on to the next token, and `tokenize` to the end of the text. Comments are
collected on the way.

A text may begin with a line `#!...` that names an interpreter. It is no part of the program: lexing
starts at its end.

Main statement: `step_length`, by which every step leaves a shorter text, so that lexing ends.
-/

namespace ModuleBuild

/-- A place in a source text. -/
structure Lexer where
  /-- The text from here on. -/
  rest : List Char
  /-- The number of bytes before this place. -/
  offset : Nat := 0
  /-- What the tokens before this place say about the text from here on. -/
  context : Context := {}
  /-- The spans of the comments before this place. -/
  comments : List Span := []
  deriving DecidableEq, Repr

/-- The token at the end of a text of `offset` bytes. -/
def Token.atEnd (offset : Nat) : Token := { kind := .endOfText, span := ⟨offset, offset⟩, text := "" }

namespace Lexer

/-- The line at the front of a text that names its interpreter, without its line feed. -/
def interpreterLine (cs : List Char) : List Char :=
  if ['#', '!'].isPrefixOf cs then cs.takeWhile (· != '\n') else []

/-- The place at which lexing a text starts. -/
def ofText (text : String) : Lexer :=
  let skipped := interpreterLine text.toList
  { rest := text.toList.drop skipped.length, offset := Text.byteLength skipped }

/-- Takes the next piece; there is none at the end of the text. -/
def step (l : Lexer) : Option (Piece × Lexer) :=
  match l.rest with
  | [] => none
  | c :: cs =>
    let (piece, rest) := l.context.read c cs
    some (piece,
      { rest
        offset := l.offset + piece.byteLength
        context := l.context.after piece
        comments := if piece.isComment then l.comments ++ [piece.spanAt l.offset] else l.comments })

/-- Every step leaves a shorter text. -/
theorem step_length {l l' : Lexer} {p : Piece} (h : l.step = some (p, l')) :
    l'.rest.length < l.rest.length := by
  unfold step at h
  split at h
  · simp at h
  · next c cs hc =>
    simp only [Option.some.injEq, Prod.mk.injEq] at h
    obtain ⟨-, rfl⟩ := h
    rw [hc]
    exact Nat.lt_succ_of_le (Piece.read_rest_length_le ..)

/-- The next token, and the place behind it. At the end of the text that is the end token, again and
again. -/
def next (l : Lexer) : Token × Lexer :=
  match _h : l.step with
  | none => (Token.atEnd l.offset, l)
  | some (piece, l') =>
    match piece.token? l.offset with
    | some token => (token, l')
    | none => next l'
termination_by l.rest.length
decreasing_by exact step_length _h

/-- All tokens from here on, the end token last, and the place behind them. -/
def tokenize (l : Lexer) : List Token × Lexer :=
  match _h : l.step with
  | none => ([Token.atEnd l.offset], l)
  | some (piece, l') =>
    let (tokens, last) := tokenize l'
    ((piece.token? l.offset).toList ++ tokens, last)
termination_by l.rest.length
decreasing_by exact step_length _h

end Lexer

/-- The tokens and comments of a text. -/
structure Lexed where
  /-- The tokens in order, errors included and the end token last. -/
  tokens : List Token
  /-- The spans of the finished comments in order. -/
  comments : List Span
  deriving DecidableEq, Repr

/-- Splits a text into its tokens and comments. -/
def Lexed.ofText (text : String) : Lexed :=
  let (tokens, last) := (Lexer.ofText text).tokenize
  ⟨tokens, last.comments⟩

end ModuleBuild
