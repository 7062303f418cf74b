import ModuleBuild.Proofs.Outline.Delimiters

/-!
# The grammar of modules

What a file looks like at its top level: import declarations, re-exports and other runs of code, each
made of tokens. An item carries the proofs that its tokens stand where the grammar wants them, so its
tokens can be printed and the statement that it stands for can be read off.

In a run of other code a `;` or `}` outside all brackets ends the run, and the words `import` and
`export` outside all brackets must not begin a declaration. Outside all brackets is a place if the
brackets before it are well nested.
-/

namespace ModuleBuild

open Delimiter

namespace Token

/-- Each bracket in the tokens is closed. -/
def BracketsBalanced (ts : List Token) : Prop := WellNested (brackets (Delimiter.ofTokens ts))

instance (ts : List Token) : Decidable (BracketsBalanced ts) :=
  inferInstanceAs (Decidable (WellNested _))

/-- Each brace in the tokens is closed; other brackets do not matter. -/
inductive BracesBalanced : List Token → Prop where
  | nil : BracesBalanced []
  | other {t : Token} {ts : List Token} (ho : t.isPunct '{' = false) (hc : t.isPunct '}' = false)
    (hts : BracesBalanced ts) : BracesBalanced (t :: ts)
  | block {opener closer : Token} {inner ts : List Token} (ho : opener.isPunct '{' = true)
    (hc : closer.isPunct '}' = true) (hinner : BracesBalanced inner) (hts : BracesBalanced ts) :
    BracesBalanced (opener :: (inner ++ closer :: ts))

/-- Whether the token may end a run of code. -/
def endsRun (t : Token) : Bool := t.isPunct ';' || t.isPunct '}'

/-- From the first byte of the tokens to the last. -/
def extent (ts : List Token) : Span :=
  ⟨(ts.head?.map (·.span.start)).getD 0, (ts.getLast?.map (·.span.stop)).getD 0⟩

/-- The tokens stand one behind the other. -/
structure Increasing (ts : List Token) : Prop where
  start_le_stop : ∀ t ∈ ts, t.span.start ≤ t.span.stop
  apart : ts.Pairwise fun t u => t.span.stop ≤ u.span.start

end Token

namespace Grammar

/-! ## Tokens of the grammar -/

/-- The word that is spelled `w`. -/
abbrev Word (w : String) : Type := { t : Token // t.isWord w = true }

/-- The punctuation character `c`. -/
abbrev Punct (c : Char) : Type := { t : Token // t.isPunct c = true }

/-- The name that an import gives to what it imports. -/
abbrev Binding : Type :=
  { t : Token // t.kind = .identifier ∧ t.isWord "import" = false ∧ t.isWord "export" = false }

/-- Tokens between braces. -/
structure Block where
  opener : Punct '{'
  inner : List Token
  closer : Punct '}'
  balanced : Token.BracesBalanced inner

def Block.tokens (b : Block) : List Token := b.opener.val :: (b.inner ++ [b.closer.val])

/-! ## Where a declaration gets its names from -/

/-- Import attributes. -/
structure Attributes where
  word : { t : Token // t.isWord "with" = true ∨ t.isWord "assert" = true }
  block : Block

/-- The specifier of a declaration and all that follows it. -/
structure Origin where
  specifier : { t : Token // t.kind = .string }
  attributes : Option Attributes
  semicolon : Punct ';'

def Attributes.tokens (a : Attributes) : List Token := a.word.val :: a.block.tokens

/-- The tokens between the specifier and the semicolon. -/
def Origin.attributeTokens (o : Origin) : List Token := o.attributes.elim [] Attributes.tokens

def Origin.tokens (o : Origin) : List Token :=
  o.specifier.val :: (o.attributeTokens ++ [o.semicolon.val])

/-- The specifier as a statement holds it. -/
def Origin.toSpecifier (o : Origin) : Specifier := ⟨o.specifier.val.text, o.specifier.val.span⟩

/-! ## Import declarations -/

/-- All names under one, or names in braces. -/
inductive Bindings where
  | whole (star : Punct '*') (word : Word "as") (name : Binding)
  | named (names : Block)

/-- What an import declaration imports. -/
inductive Clause where
  | default (name : Binding)
  | bindings (bs : Bindings)
  | both (name : Binding) (comma : Punct ',') (bs : Bindings)

/-- A clause with the modifier before it and the word `from` behind it. -/
structure FromClause where
  modifier : Option (Word "type")
  clause : Clause
  word : Word "from"

/-- An import declaration. Without a clause it imports a module for its effects. -/
structure Import where
  keyword : Word "import"
  clause : Option FromClause
  origin : Origin

def Bindings.tokens : Bindings → List Token
  | whole star word name => [star.val, word.val, name.val]
  | named names => names.tokens

def Clause.tokens : Clause → List Token
  | default name => [name.val]
  | bindings bs => bs.tokens
  | both name comma bs => name.val :: comma.val :: bs.tokens

/-- The default binding, if the clause has one. -/
def Clause.defaultName? : Clause → Option Binding
  | default name => some name
  | bindings _ => none
  | both name _ _ => some name

def FromClause.tokens (f : FromClause) : List Token :=
  (f.modifier.map (·.val)).toList ++ f.clause.tokens ++ [f.word.val]

def Import.clauseTokens (i : Import) : List Token := i.clause.elim [] FromClause.tokens

def Import.tokens (i : Import) : List Token := i.keyword.val :: (i.clauseTokens ++ i.origin.tokens)

/-- Whether the declaration imports types only. -/
def Import.typeOnly (i : Import) : Bool := i.clause.any (·.modifier.isSome)

/-- Whether the default binding is called `from`. -/
def FromClause.bindsFrom (f : FromClause) : Bool := f.clause.defaultName?.any (·.val.isWord "from")

/-- Whether the declaration imports types only, and its default binding is called `from`. -/
def Import.modifiesFrom (i : Import) : Bool :=
  i.clause.any fun f => f.modifier.isSome && f.bindsFrom

/-! ## Re-exports and other code -/

/-- What a re-export names. -/
inductive ExportClause where
  | all (star : Punct '*')
  | whole (star : Punct '*') (word : Word "as") (name : Token)
  | named (names : Block)

/-- A re-export. -/
structure Reexport where
  keyword : Word "export"
  modifier : Option (Word "type")
  clause : ExportClause
  word : Word "from"
  origin : Origin

def ExportClause.tokens : ExportClause → List Token
  | all star => [star.val]
  | whole star word name => [star.val, word.val, name]
  | named names => names.tokens

def Reexport.clauseTokens (e : Reexport) : List Token :=
  (e.modifier.map (·.val)).toList ++ e.clause.tokens ++ [e.word.val]

def Reexport.tokens (e : Reexport) : List Token :=
  e.keyword.val :: (e.clauseTokens ++ e.origin.tokens)

/-- Whether a declaration cannot begin with `import` when `next` follows it. -/
def continuesImport (next : Option Token) : Bool :=
  next.any fun t => t.isPunct '(' || t.isPunct '.'

/-- Whether a re-export may begin with `export` when `next` follows it. -/
def beginsReexport (next : Option Token) : Bool :=
  next.any fun t => t.isWord "type" || t.isPunct '*' || t.isPunct '{'

/-- Other code up to the first place where it may end. -/
structure Run where
  tokens : List Token
  ne_nil : tokens ≠ []
  balanced : Token.BracketsBalanced tokens
  /-- Outside all brackets, the last token and no other ends the run. -/
  ends : ∀ i (h : i < tokens.length), Token.BracketsBalanced (tokens.take (i + 1)) →
    (tokens[i].endsRun = true ↔ i + 1 = tokens.length)
  no_import : ∀ i (h : i < tokens.length), Token.BracketsBalanced (tokens.take i) →
    (tokens.take i).getLast?.any (·.isPunct '.') = false → tokens[i].isWord "import" = true →
    continuesImport tokens[i + 1]? = true
  no_export : ∀ i (h : i < tokens.length), Token.BracketsBalanced (tokens.take i) →
    (tokens.take i).getLast?.any (·.isPunct '.') = false → tokens[i].isWord "export" = true →
    beginsReexport tokens[i + 1]? = false

/-! ## Items -/

/-- An item at the top level of a module. -/
inductive Item where
  | importFrom (i : Import)
  | exportFrom (e : Reexport)
  | other (r : Run)

namespace Item

def tokens : Item → List Token
  | importFrom i => i.tokens
  | exportFrom e => e.tokens
  | other r => r.tokens

/-- The statement that an item stands for if `typeOnly` says which declarations import types only. -/
def statementWith (typeOnly : Import → Bool) (x : Item) : Statement where
  kind := match x with
    | importFrom i => .importFrom i.origin.toSpecifier (typeOnly i)
    | exportFrom e => .exportFrom e.origin.toSpecifier
    | other _ => .other
  span := Token.extent x.tokens

/-- The statement that an item stands for. -/
def statement (x : Item) : Statement := x.statementWith Import.typeOnly

/-- Whether the item is an import of types only whose default binding is called `from`. -/
def modifiesFrom : Item → Bool
  | importFrom i => i.modifiesFrom
  | _ => false

end Item

end Grammar

end ModuleBuild
