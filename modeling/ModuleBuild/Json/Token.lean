import ModuleBuild.Json
import ModuleBuild.Number.Scaled

/-!
# JSON tokens

The marks, strings, numbers and words of a JSON text. Reading is strict: blanks are the space, the
tab, the line feed and the carriage return; a number has no leading zero and at least one digit on
each side of its point; a string holds no control characters below the space, and an escape of half
of a surrogate pair must be followed by the escape of the other half.

Main statement: `next?_length`, by which a token leaves a shorter text.
-/

namespace ModuleBuild.Json

/-- A token of a JSON text. -/
inductive Token where
  /-- `[` -/
  | openArray
  /-- `]` -/
  | closeArray
  /-- The opening brace. -/
  | openObject
  /-- The closing brace. -/
  | closeObject
  /-- `,` -/
  | comma
  /-- `:` -/
  | colon
  /-- A string, as a value or as a key. -/
  | string (text : String)
  /-- A number or one of the words `null`, `true` and `false`. -/
  | scalar (value : Json)

namespace Token

/-! ## Strings -/

/-- The value of a hexadecimal digit. -/
def hexValue? (c : Char) : Option Nat :=
  if c.isDigit then some (c.toNat - '0'.toNat)
  else if 'a' ≤ c ∧ c ≤ 'f' then some (c.toNat - 'a'.toNat + 10)
  else if 'A' ≤ c ∧ c ≤ 'F' then some (c.toNat - 'A'.toNat + 10)
  else none

/-- The number written by four hexadecimal digits, and what follows them. -/
def fourHex? : List Char → Option (Nat × List Char)
  | a :: b :: c :: d :: cs => do
    let a ← hexValue? a
    let b ← hexValue? b
    let c ← hexValue? c
    let d ← hexValue? d
    some (((a * 16 + b) * 16 + c) * 16 + d, cs)
  | _ => none

/-- The character that a numeric escape stands for, read behind `\u`. A character beyond the first
plane is written as two escapes: a high surrogate and then a low one. -/
def codePoint? (cs : List Char) : Option (Char × List Char) :=
  match fourHex? cs with
  | none => none
  | some (n, rest) =>
    if n < 0xd800 ∨ 0xdfff < n then some (Char.ofNat n, rest)
    else if n < 0xdc00 then
      match rest with
      | '\\' :: 'u' :: rest =>
        match fourHex? rest with
        | none => none
        | some (m, rest) =>
          if 0xdc00 ≤ m ∧ m ≤ 0xdfff then
            some (Char.ofNat (0x10000 + (n - 0xd800) * 0x400 + (m - 0xdc00)), rest)
          else none
      | _ => none
    else none

/-- The escapes of one letter, with the characters that they stand for. -/
def letterEscapes : List (Char × Char) :=
  [('"', '"'), ('\\', '\\'), ('/', '/'), ('b', '\x08'), ('f', '\x0c'), ('n', '\n'), ('r', '\r'),
    ('t', '\t')]

/-- The character that an escape stands for, read behind the backslash. -/
def escaped? : List Char → Option (Char × List Char)
  | [] => none
  | c :: cs =>
    match letterEscapes.lookup c with
    | some d => some (d, cs)
    | none => if c = 'u' then codePoint? cs else none

private theorem fourHex?_length {cs rest : List Char} {n : Nat} (h : fourHex? cs = some (n, rest)) :
    rest.length < cs.length := by
  unfold fourHex? at h
  split at h
  · simp only [Option.bind_eq_bind, Option.bind_eq_some_iff] at h
    obtain ⟨_, _, _, _, _, _, _, _, h⟩ := h
    cases h
    simp only [List.length_cons]
    omega
  · simp at h

private theorem codePoint?_length {cs rest : List Char} {c : Char}
    (h : codePoint? cs = some (c, rest)) : rest.length < cs.length := by
  unfold codePoint? at h
  split at h
  · simp at h
  · next h₁ =>
    have h₁ := fourHex?_length h₁
    split at h
    · simp only [Option.some.injEq, Prod.mk.injEq] at h
      obtain ⟨-, rfl⟩ := h
      exact h₁
    · split at h
      · split at h
        · split at h
          · simp at h
          · next h₂ =>
            have h₂ := fourHex?_length h₂
            split at h
            · simp only [Option.some.injEq, Prod.mk.injEq] at h
              obtain ⟨-, rfl⟩ := h
              simp only [List.length_cons] at h₁
              omega
            · simp at h
        · simp at h
      · simp at h

private theorem escaped?_length {cs rest : List Char} {c : Char}
    (h : escaped? cs = some (c, rest)) : rest.length < cs.length := by
  unfold escaped? at h
  split at h
  · simp at h
  · split at h
    · cases h; simp
    · split at h
      · have := codePoint?_length h
        simp only [List.length_cons]
        omega
      · simp at h

/-- The characters of a string, read behind its opening quote, and what follows its closing one. -/
def string? : List Char → Option (List Char × List Char)
  | [] => none
  | c :: cs =>
    if c = '"' then some ([], cs)
    else if c = '\\' then
      match _h : escaped? cs with
      | none => none
      | some (d, rest) => (string? rest).map fun (ds, rest) => (d :: ds, rest)
    else if c.toNat < 0x20 then none
    else (string? cs).map fun (ds, rest) => (c :: ds, rest)
termination_by cs => cs.length
decreasing_by
  · have := escaped?_length _h
    simp only [List.length_cons]
    omega
  · simp

private theorem string?_length {cs ds rest : List Char} (h : string? cs = some (ds, rest)) :
    rest.length < cs.length := by
  fun_induction string? cs generalizing ds rest with
  | case1 => simp at h
  | case2 => cases h; simp
  | case3 => simp at h
  | case4 cs d r hd _ ih =>
    obtain ⟨⟨es, r'⟩, hr, he⟩ := Option.map_eq_some_iff.1 h
    cases he
    have := ih hr
    have := escaped?_length hd
    simp only [List.length_cons]
    omega
  | case5 => simp at h
  | case6 c cs _ _ _ ih =>
    obtain ⟨⟨es, r'⟩, hr, he⟩ := Option.map_eq_some_iff.1 h
    cases he
    have := ih hr
    simp only [List.length_cons]
    omega

/-! ## Numbers -/

/-- The digits at the front of a text, and what follows them. -/
def digits (cs : List Char) : List Char × List Char :=
  (cs.takeWhile Char.isDigit, cs.dropWhile Char.isDigit)

/-- The number that the digits write. -/
def natural (ds : List Char) : Nat := ds.foldl (fun n d => n * 10 + Number.digitValue d) 0

/-- The digits behind a point, if there is one. -/
def fraction? : List Char → Option (Option (List Char) × List Char)
  | '.' :: cs =>
    let (ds, rest) := digits cs
    if ds = [] then none else some (some ds, rest)
  | cs => some (none, cs)

/-- What follows one of the signs in `signs`, if the text begins with one. -/
def dropSign (signs cs : List Char) : List Char :=
  if cs.head?.any signs.contains then cs.tail else cs

/-- The sign and digits of an exponent, behind its mark. -/
def exponentDigits? (cs : List Char) : Option (Int × List Char) :=
  let (ds, rest) := digits (dropSign ['+', '-'] cs)
  if ds = [] then none
  else some (if cs.head? = some '-' then -(natural ds : Int) else natural ds, rest)

/-- The exponent, if there is one. -/
def exponent? : List Char → Option (Option Int × List Char)
  | [] => some (none, [])
  | c :: cs =>
    if c = 'e' ∨ c = 'E' then (exponentDigits? cs).map fun (e, rest) => (some e, rest)
    else some (none, c :: cs)

/-- The number written by its parts. Without a fraction and an exponent it is an integer, if it fits
64 bits and is not a negative zero. The digits that do not fit a significand only count for their
places. -/
def numberOfParts? (negative : Bool) (whole : List Char) (fraction : Option (List Char))
    (exponent : Option Int) : Option Json.Number :=
  let (significand, dropped) := Number.appendDigits 0 whole
  let floating (significand : Nat) (exponent : Int) :=
    (Number.ofDecimal? significand exponent).map (Json.Number.floating negative)
  match dropped, fraction, exponent with
  | [], none, none =>
    if negative = false then some (.integer significand)
    else if 0 < significand ∧ significand ≤ Number.twoPower 63 then some (.integer (-significand))
    else floating significand 0
  | _, _, _ =>
    let behind := fraction.getD []
    let (significand, unused) := Number.appendDigits significand behind
    floating significand
      (exponent.getD 0 + dropped.length - (behind.length - unused.length : Nat))

/-- A number, and what follows it. -/
def number? (cs : List Char) : Option (Json.Number × List Char) :=
  let (whole, rest) := digits (dropSign ['-'] cs)
  if whole = [] ∨ (whole.head? = some '0' ∧ whole.length ≠ 1) then none
  else
    match fraction? rest with
    | none => none
    | some (fraction, rest) =>
      match exponent? rest with
      | none => none
      | some (exponent, rest) =>
        (numberOfParts? (cs.head? = some '-') whole fraction exponent).map fun n => (n, rest)

private theorem digits_append (cs : List Char) : (digits cs).1 ++ (digits cs).2 = cs :=
  List.takeWhile_append_dropWhile

private theorem digits_length (cs : List Char) :
    (digits cs).1.length + (digits cs).2.length = cs.length := by
  rw [← List.length_append, digits_append]

private theorem fraction?_length {cs rest : List Char} {f : Option (List Char)}
    (h : fraction? cs = some (f, rest)) : rest.length ≤ cs.length := by
  unfold fraction? at h
  split at h
  · next cs =>
    have := digits_length cs
    dsimp only at h
    split at h
    · simp at h
    · cases h
      simp only [List.length_cons]
      omega
  · cases h; exact Nat.le_refl _

private theorem dropSign_length (signs cs : List Char) :
    (dropSign signs cs).length ≤ cs.length := by
  unfold dropSign
  split <;> simp

private theorem exponentDigits?_length {cs rest : List Char} {e : Int}
    (h : exponentDigits? cs = some (e, rest)) : rest.length ≤ cs.length := by
  have hs := dropSign_length ['+', '-'] cs
  have hd := digits_length (dropSign ['+', '-'] cs)
  unfold exponentDigits? at h
  dsimp only at h
  split at h
  · simp at h
  · simp only [Option.some.injEq, Prod.mk.injEq] at h
    obtain ⟨-, rfl⟩ := h
    omega

private theorem exponent?_length {cs rest : List Char} {e : Option Int}
    (h : exponent? cs = some (e, rest)) : rest.length ≤ cs.length := by
  unfold exponent? at h
  split at h
  · cases h; simp
  · split at h
    · obtain ⟨⟨x, r⟩, hx, he⟩ := Option.map_eq_some_iff.1 h
      cases he
      have := exponentDigits?_length hx
      simp only [List.length_cons]
      omega
    · cases h; exact Nat.le_refl _

private theorem number?_length {cs rest : List Char} {n : Json.Number}
    (h : number? cs = some (n, rest)) : rest.length < cs.length := by
  have hs := dropSign_length ['-'] cs
  have hd := digits_length (dropSign ['-'] cs)
  unfold number? at h
  dsimp only at h
  split at h
  · simp at h
  · next hw =>
    have hp : 0 < (digits (dropSign ['-'] cs)).1.length :=
      List.length_pos_iff.2 fun he => hw (Or.inl he)
    split at h
    · simp at h
    · next hf =>
      have hf := fraction?_length hf
      split at h
      · simp at h
      · next he =>
        have he := exponent?_length he
        obtain ⟨x, -, hx⟩ := Option.map_eq_some_iff.1 h
        cases hx
        omega

/-! ## Tokens -/

/-- The blanks between tokens. -/
def isSpace (c : Char) : Bool := c = ' ' || c = '\t' || c = '\n' || c = '\r'

/-- The token at the front of a text, and what follows it. -/
def next? : List Char → Option (Token × List Char)
  | '[' :: cs => some (openArray, cs)
  | ']' :: cs => some (closeArray, cs)
  | '{' :: cs => some (openObject, cs)
  | '}' :: cs => some (closeObject, cs)
  | ',' :: cs => some (comma, cs)
  | ':' :: cs => some (colon, cs)
  | '"' :: cs => (string? cs).map fun (ds, rest) => (string (String.ofList ds), rest)
  | 'n' :: 'u' :: 'l' :: 'l' :: cs => some (scalar null, cs)
  | 't' :: 'r' :: 'u' :: 'e' :: cs => some (scalar (bool true), cs)
  | 'f' :: 'a' :: 'l' :: 's' :: 'e' :: cs => some (scalar (bool false), cs)
  | cs => (number? cs).map fun (n, rest) => (scalar (number n), rest)

/-- A token leaves a shorter text. -/
theorem next?_length {cs rest : List Char} {t : Token} (h : next? cs = some (t, rest)) :
    rest.length < cs.length := by
  unfold next? at h
  split at h
  case h_7 cs =>
    obtain ⟨⟨ds, r⟩, hr, he⟩ := Option.map_eq_some_iff.1 h
    cases he
    have := string?_length hr
    simp only [List.length_cons]
    omega
  case h_11 =>
    obtain ⟨⟨n, r⟩, hr, he⟩ := Option.map_eq_some_iff.1 h
    cases he
    exact number?_length hr
  all_goals cases h; simp only [List.length_cons]; omega

/-- The tokens of a whole text. -/
def all? : List Char → Option (List Token)
  | [] => some []
  | c :: cs =>
    if isSpace c then all? cs
    else
      match _h : next? (c :: cs) with
      | none => none
      | some (t, rest) => (all? rest).map (t :: ·)
termination_by cs => cs.length
decreasing_by
  · simp
  · exact next?_length _h

end Token

end ModuleBuild.Json
