import ModuleBuild.Text.Bytes
import ModuleBuild.Token

/-!
# Top-level statements

The statements of a file as far as a build needs them: import declarations and re-exports, which
name other modules, and everything else in runs of tokens.

`moduleStatement?` recognises an import declaration or a re-export that begins with a given keyword;
`collect` splits all tokens of a file. A run of other tokens ends behind a `;` or `}` outside all
brackets, in front of an import declaration or re-export, and at the end of the file.

Main statement: `moduleStatement?_length`, by which a recognised statement leaves fewer tokens.
-/

namespace ModuleBuild

/-- The name of a module as it is quoted in the source. -/
structure Specifier where
  /-- The literal with its quotes. -/
  raw : String
  /-- Where it stands. -/
  span : Span
  deriving DecidableEq, Repr

/-- The name without its quotes: the literal without its first and last byte, or nothing where these
are not characters. -/
def Specifier.unquoted (s : Specifier) : String :=
  String.ofList ((Text.slice? s.raw.toList 1 (Text.byteLength s.raw.toList - 1)).getD [])

/-- What a statement is. -/
inductive Statement.Kind where
  /-- An import declaration; `typeOnly` says whether it has the `type` modifier. -/
  | importFrom (specifier : Specifier) (typeOnly : Bool)
  /-- A re-export of another module's names. -/
  | exportFrom (specifier : Specifier)
  /-- Any other run of code. -/
  | other
  deriving DecidableEq, Repr

/-- A top-level statement. -/
structure Statement where
  /-- What it is. -/
  kind : Statement.Kind
  /-- The bytes from its first to its last token. -/
  span : Span
  deriving DecidableEq, Repr

namespace Statement

/-- The module that the statement imports. -/
def imported? (s : Statement) : Option Specifier :=
  match s.kind with
  | .importFrom specifier _ => some specifier
  | _ => none

/-- Whether the statement is an import of types only. -/
def isTypeOnlyImport (s : Statement) : Bool :=
  match s.kind with
  | .importFrom _ typeOnly => typeOnly
  | _ => false

/-! ## Clauses -/

/-- The brace that closes the outermost of `depth` open ones, and the tokens behind it. -/
def closingBrace? : (depth : Nat) → List Token → Option (Token × List Token)
  | _, [] => none
  | depth, t :: ts =>
    if t.isPunct '{' then closingBrace? (depth + 1) ts
    else if t.isPunct '}' then
      if depth ≤ 1 then some (t, ts) else closingBrace? (depth - 1) ts
    else closingBrace? depth ts

/-- The last token of the import attributes behind a specifier, and the tokens behind it. An
attribute clause that is not closed does not count. -/
def attributes? : List Token → Option (Token × List Token)
  | word :: brace :: ts =>
    if (word.isWord "with" || word.isWord "assert") && brace.isPunct '{' then closingBrace? 1 ts
    else none
  | _ => none

/-- The last token of a statement whose specifier is `specifier`, and the tokens behind it: import
attributes and a semicolon belong to the statement. -/
def finish (specifier : Token) (ts : List Token) : Token × List Token :=
  let (last, ts) := (attributes? ts).getD (specifier, ts)
  match ts with
  | t :: rest => if t.isPunct ';' then (t, rest) else (last, ts)
  | [] => (last, [])

/-- The specifier of an import declaration: the first string outside braces. It must come before any
semicolon or further `import` or `export` outside braces. With it come the token before it, `before`
if there is none, and the tokens behind it. -/
def importSpecifier? (before : Option Token) (braces : Nat) :
    List Token → Option (Option Token × Token × List Token)
  | [] => none
  | t :: ts =>
    if braces = 0 && t.kind = .string then some (before, t, ts)
    else if t.isPunct '{' then importSpecifier? (some t) (braces + 1) ts
    else if t.isPunct '}' then
      if braces = 0 then none else importSpecifier? (some t) (braces - 1) ts
    else if braces = 0 && (t.isPunct ';' || t.isWord "import" || t.isWord "export") then none
    else importSpecifier? (some t) braces ts

/-- Whether the tokens behind `import` begin with the `type` modifier. As the name of a default
binding, `type` is followed by `from` or a comma. -/
def hasTypeModifier : List Token → Bool
  | first :: second :: _ =>
    first.isWord "type" &&
      (second.isPunct '{' || second.isPunct '*' ||
        (second.kind = .identifier && !second.isWord "from"))
  | _ => false

/-- The tokens behind the `type` modifier, if there is one. -/
def dropTypeModifier (ts : List Token) : List Token := if hasTypeModifier ts then ts.tail else ts

/-- Whether the tokens begin with a name and an equals sign. -/
def isAssignment : List Token → Bool
  | name :: equals :: _ => name.kind = .identifier && equals.isPunct '='
  | _ => false

/-! ## Import declarations and re-exports -/

/-- The import declaration that begins with the word `import` and goes on with `ts`. Where a
parenthesis or a point follows the word it is part of an expression, and `import name = ...` is
another kind of declaration. The specifier comes behind the word itself or behind `from`. -/
def importDeclaration? (keyword : Token) (ts : List Token) : Option (Statement × List Token) :=
  if ts.head?.any (fun t => t.isPunct '(' || t.isPunct '.') then none
  else if isAssignment (dropTypeModifier ts) then none
  else
    match importSpecifier? none 0 ts with
    | none => none
    | some (before, specifier, rest) =>
      if before.any (fun t => !t.isWord "from") then none
      else
        let (last, rest) := finish specifier rest
        some (⟨.importFrom ⟨specifier.text, specifier.span⟩ (hasTypeModifier ts),
          keyword.span.merge last.span⟩, rest)

/-- The tokens behind the clause of a re-export: `*`, `* as name` or names in braces. -/
def exportClause? : List Token → Option (List Token)
  | [] => none
  | t :: ts =>
    if t.isPunct '*' then some (if ts.head?.any (·.isWord "as") then ts.drop 2 else ts)
    else if t.isPunct '{' then (closingBrace? 1 ts).map (·.2)
    else none

/-- The re-export that begins with the word `export` and goes on with `ts`. -/
def exportDeclaration? (keyword : Token) (ts : List Token) : Option (Statement × List Token) :=
  match exportClause? (if ts.head?.any (·.isWord "type") then ts.tail else ts) with
  | some (word :: specifier :: rest) =>
    if word.isWord "from" && specifier.kind = .string then
      let (last, rest) := finish specifier rest
      some (⟨.exportFrom ⟨specifier.text, specifier.span⟩, keyword.span.merge last.span⟩, rest)
    else none
  | _ => none

/-- The import declaration or re-export that begins with `t` and goes on with `ts`, and the tokens
behind it. -/
def moduleStatement? (t : Token) (ts : List Token) : Option (Statement × List Token) :=
  if t.isWord "import" then importDeclaration? t ts
  else if t.isWord "export" then exportDeclaration? t ts
  else none

/-! ## Recognised statements use up tokens -/

private theorem closingBrace?_length {depth : Nat} {ts rest : List Token} {t : Token}
    (h : closingBrace? depth ts = some (t, rest)) : rest.length < ts.length := by
  fun_induction closingBrace? depth ts with
  | case1 => simp at h
  | case3 => cases h; simp
  | case2 _ _ _ _ ih | case4 _ _ _ _ _ _ ih | case5 _ _ _ _ _ ih =>
    have := ih h
    simp only [List.length_cons]
    omega

private theorem finish_length (specifier : Token) (ts : List Token) :
    (finish specifier ts).2.length ≤ ts.length := by
  have ha : ((attributes? ts).getD (specifier, ts)).2.length ≤ ts.length := by
    cases h : attributes? ts with
    | none => simp
    | some r =>
      obtain ⟨t, rest⟩ := r
      unfold attributes? at h
      split at h
      · split at h
        · have := closingBrace?_length h
          simp only [Option.getD_some, List.length_cons]
          omega
        · simp at h
      · simp at h
  unfold finish
  generalize (attributes? ts).getD (specifier, ts) = r at ha ⊢
  obtain ⟨last, rest⟩ := r
  dsimp only at ha ⊢
  split
  · split
    · simp only [List.length_cons] at ha ⊢
      omega
    · exact ha
  · simp

private theorem importSpecifier?_length {before b : Option Token} {braces : Nat}
    {ts rest : List Token} {t : Token}
    (h : importSpecifier? before braces ts = some (b, t, rest)) : rest.length < ts.length := by
  induction ts generalizing before braces with
  | nil => simp [importSpecifier?] at h
  | cons u us ih =>
    unfold importSpecifier? at h
    simp only [List.length_cons]
    split at h
    · cases h; omega
    split at h
    · have := ih h; omega
    split at h
    · split at h
      · simp at h
      · have := ih h; omega
    split at h
    · simp at h
    · have := ih h; omega

private theorem importDeclaration?_length {keyword : Token} {ts rest : List Token} {s : Statement}
    (h : importDeclaration? keyword ts = some (s, rest)) : rest.length ≤ ts.length := by
  unfold importDeclaration? at h
  split at h
  · simp at h
  split at h
  · simp at h
  split at h
  · simp at h
  · next hs =>
    have hs := importSpecifier?_length hs
    split at h
    · simp at h
    · cases h
      exact Nat.le_trans (finish_length _ _) (Nat.le_of_lt hs)

private theorem exportClause?_length {ts rest : List Token} (h : exportClause? ts = some rest) :
    rest.length ≤ ts.length := by
  unfold exportClause? at h
  split at h
  · simp at h
  · next t ts =>
    simp only [List.length_cons]
    split at h
    · cases h
      split
      · simp only [List.length_drop]
        omega
      · omega
    · split at h
      · obtain ⟨⟨u, r⟩, hr, rfl⟩ := Option.map_eq_some_iff.1 h
        have := closingBrace?_length hr
        dsimp only
        omega
      · simp at h

private theorem exportDeclaration?_length {keyword : Token} {ts rest : List Token} {s : Statement}
    (h : exportDeclaration? keyword ts = some (s, rest)) : rest.length ≤ ts.length := by
  unfold exportDeclaration? at h
  split at h
  · next hc =>
    have hc := exportClause?_length hc
    have ht : (if ts.head?.any (·.isWord "type") then ts.tail else ts).length ≤ ts.length := by
      split <;> simp
    split at h
    · cases h
      refine Nat.le_trans (finish_length _ _) ?_
      simp only [List.length_cons] at hc
      omega
    · simp at h
  · simp at h

/-- A recognised statement leaves at most the tokens behind its keyword. -/
theorem moduleStatement?_length {t : Token} {ts rest : List Token} {s : Statement}
    (h : moduleStatement? t ts = some (s, rest)) : rest.length ≤ ts.length := by
  unfold moduleStatement? at h
  split at h
  · exact importDeclaration?_length h
  · split at h
    · exact exportDeclaration?_length h
    · simp at h

/-! ## All statements -/

/-- The run of other code that covers `pending`, if there is one. -/
def ofPending (pending : Option Span) : List Statement := pending.toList.map (⟨.other, ·⟩)

/-- The number of open brackets behind a token; a stray closing one does not count. -/
def depthBehind (depth : Nat) (t : Token) : Nat :=
  match t.punctChar? with
  | some c =>
    if c = '(' ∨ c = '[' ∨ c = '{' then depth + 1
    else if c = ')' ∨ c = ']' ∨ c = '}' then depth - 1
    else depth
  | none => depth

/-- The statements of the tokens. Before them stands the token `previous` of the same run of other
code, `depth` brackets are open, and the run covers `pending` so far. Behind a point the words
`import` and `export` are names of members. -/
def collect (previous : Option Token) (depth : Nat) (pending : Option Span) :
    List Token → List Statement
  | [] => ofPending pending
  | t :: ts =>
    match _h : if depth = 0 ∧ !previous.any (·.isPunct '.') then moduleStatement? t ts else none with
    | some (s, rest) => ofPending pending ++ s :: collect none 0 none rest
    | none =>
      let depth := depthBehind depth t
      let covered := (pending.map (·.merge t.span)).getD t.span
      if depth = 0 ∧ (t.isPunct ';' || t.isPunct '}') then
        ofPending (some covered) ++ collect (some t) depth none ts
      else collect (some t) depth (some covered) ts
termination_by ts => ts.length
decreasing_by
  · split at _h
    · have := moduleStatement?_length _h
      simp only [List.length_cons]
      omega
    · simp at _h
  · simp
  · simp

/-- The statements of the significant tokens of a file. -/
def ofTokens (ts : List Token) : List Statement := collect none 0 none ts

end Statement

end ModuleBuild
