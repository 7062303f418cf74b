import ModuleBuild.Number.Binary

/-!
# Similarity of words

The similarity of two words is a number between zero and one. Two equal characters are
partners if their positions are close enough to each other; each character has one partner at most.
The similarity is the mean of three quotients: the share of characters with a partner in either word,
and the share of partners that are in order. It is reckoned in binary floating-point numbers, from the
first quotient to the last, and every step is rounded.

`closest?` is what a misspelled word may have been meant to be.
-/

namespace ModuleBuild.Text

open Number (Magnitude)

namespace Similarity

/-- How far apart partners may be in words of `m` and `n` characters. -/
def reach (m n : Nat) : Nat := max m n / 2 - 1

/-- The position of the partner of the character `c` at position `i`: the first equal character of
`word` that is within reach and has no partner yet. -/
def partner? (word : List Char) (reach : Nat) (taken : List Nat) (i : Nat) (c : Char) : Option Nat :=
  (List.range word.length).find? fun j =>
    i ≤ j + reach && j ≤ i + reach && word[j]? = some c && !taken.contains j

/-- The characters from position `i` on that have a partner, and the positions of the partners. -/
def partners (word : List Char) (reach : Nat) (taken : List Nat) (i : Nat) :
    List Char → List (Char × Nat)
  | [] => []
  | c :: cs =>
    match partner? word reach taken i c with
    | none => partners word reach taken (i + 1) cs
    | some j => (c, j) :: partners word reach (j :: taken) (i + 1) cs

/-- The number of pairs that change places: half the number of characters that differ when the
characters with a partner are read in order in both words. -/
def transpositions (word : List Char) (pairs : List (Char × Nat)) : Nat :=
  let there := (pairs.map Prod.snd).mergeSort.filterMap fun j => word[j]?
  ((pairs.map Prod.fst).zip there).countP (fun (c, d) => c ≠ d) / 2

/-- The mean of the shares `m / a`, `m / b` and `ordered / m`, reckoned in this order. -/
def mean? (a b m ordered : Nat) : Option Magnitude := do
  let shares ← (← Magnitude.nearest? m a).add? (← Magnitude.nearest? m b)
  let total ← shares.add? (← Magnitude.nearest? ordered m)
  total.div? (← Magnitude.nearest? 3 1)

end Similarity

/-- The similarity of two words. -/
def similarity (a b : List Char) : Magnitude :=
  let pairs := Similarity.partners b (Similarity.reach a.length b.length) [] 0 a
  let m := pairs.length
  let t := Similarity.transpositions b pairs
  if m = 0 then Magnitude.zero
  else (Similarity.mean? a.length b.length m (m - t)).getD Magnitude.zero

/-- The similarity above which a word counts as a misspelling of another one: the number nearest to
seven tenths. -/
def similarityBound : Magnitude := (Magnitude.nearest? 7 10).getD Magnitude.zero

/-- The candidate most similar to a word, the last of several, if there is one above the bound. -/
def closest? {α : Type} (name : α → String) (word : String) (candidates : List α) : Option α :=
  let rated := candidates.map fun c => (c, similarity word.toList (name c).toList)
  let better (best : Option (α × Magnitude)) (next : α × Magnitude) : Option (α × Magnitude) :=
    if best.any (next.2.less ·.2) then best else some next
  ((rated.filter (similarityBound.less ·.2)).foldl better none).map Prod.fst

end ModuleBuild.Text
