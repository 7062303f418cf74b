import Mathlib.Data.List.Basic

/-!
# Well-nested delimiters

A word of opening and closing delimiters of several kinds is well nested if every delimiter is closed,
by one of its own kind, and whatever is opened in between is closed in between. `WellNested` says this
by the shape of the word, `run?` by a stack.

Main statements: `wellNested_iff`, by which the two agree; and `WellNested.filter`, by which leaving
out all delimiters of some kinds keeps a word well nested.
-/

namespace ModuleBuild

/-- One side of a pair of delimiters. -/
inductive Delimiter (κ : Type) where
  | opening (kind : κ)
  | closing (kind : κ)
  deriving DecidableEq, Repr

namespace Delimiter

variable {κ : Type}

/-- The kind of a delimiter. -/
def kind : Delimiter κ → κ
  | opening k => k
  | closing k => k

@[simp] theorem kind_opening (k : κ) : (opening k).kind = k := rfl

@[simp] theorem kind_closing (k : κ) : (closing k).kind = k := rfl

/-- Every delimiter is closed, and so is all that is opened before that. -/
inductive WellNested : List (Delimiter κ) → Prop where
  | nil : WellNested []
  | enclose (k : κ) {inner rest : List (Delimiter κ)} (hinner : WellNested inner)
    (hrest : WellNested rest) : WellNested (opening k :: (inner ++ closing k :: rest))

/-! ## Stacks -/

/-- The word closes what is open, the innermost first, with well-nested words in between. -/
def Closes : List κ → List (Delimiter κ) → Prop
  | [], ds => WellNested ds
  | k :: stack, ds => ∃ inner rest, ds = inner ++ closing k :: rest ∧ WellNested inner ∧
      Closes stack rest

private theorem closes_enclose {stack : List κ} {k : κ} {inner rest : List (Delimiter κ)}
    (hinner : WellNested inner) (hrest : Closes stack rest) :
    Closes stack (opening k :: (inner ++ closing k :: rest)) := by
  cases stack with
  | nil => exact WellNested.enclose k hinner hrest
  | cons top stack =>
    obtain ⟨before, behind, rfl, hbefore, hbehind⟩ := hrest
    exact ⟨opening k :: (inner ++ closing k :: before), behind, by simp,
      WellNested.enclose k hinner hbefore, hbehind⟩

variable [DecidableEq κ]

/-- The kinds that are open behind a word, the innermost first, if `stack` is open before it. There is
no such stack if a closing delimiter does not fit. -/
def run? (stack : List κ) : List (Delimiter κ) → Option (List κ)
  | [] => some stack
  | opening k :: ds => run? (k :: stack) ds
  | closing k :: ds =>
    match stack with
    | [] => none
    | top :: rest => if top = k then run? rest ds else none

@[simp] theorem run?_nil (stack : List κ) : run? stack [] = some stack := rfl

@[simp] theorem run?_opening (stack : List κ) (k : κ) (ds : List (Delimiter κ)) :
    run? stack (opening k :: ds) = run? (k :: stack) ds := rfl

@[simp] theorem run?_closing_self (stack : List κ) (k : κ) (ds : List (Delimiter κ)) :
    run? (k :: stack) (closing k :: ds) = run? stack ds := if_pos rfl

/-- A closing delimiter fits only an open one of its kind. -/
theorem eq_cons_of_run?_closing {stack out : List κ} {k : κ} {ds : List (Delimiter κ)}
    (h : run? stack (closing k :: ds) = some out) :
    ∃ rest, stack = k :: rest ∧ run? rest ds = some out := by
  cases stack with
  | nil => simp [run?] at h
  | cons top rest =>
    by_cases hk : top = k
    · subst hk
      exact ⟨rest, rfl, by rwa [run?_closing_self] at h⟩
    · simp [run?, hk] at h

theorem run?_append (stack : List κ) (ds es : List (Delimiter κ)) :
    run? stack (ds ++ es) = (run? stack ds).bind fun s => run? s es := by
  induction ds generalizing stack with
  | nil => rfl
  | cons d ds ih =>
    cases d with
    | opening k => exact ih _
    | closing k =>
      cases stack with
      | nil => rfl
      | cons top rest =>
        by_cases hk : top = k
        · subst hk
          rw [List.cons_append, run?_closing_self, run?_closing_self, ih]
        · simp [run?, hk]

theorem run?_append_eq_some {stack out : List κ} {ds es : List (Delimiter κ)}
    (h : run? stack (ds ++ es) = some out) :
    ∃ s, run? stack ds = some s ∧ run? s es = some out := by
  rw [run?_append] at h
  exact Option.bind_eq_some_iff.mp h

/-- Leaving out all delimiters of some kinds leaves the same kinds out of the stacks. -/
theorem run?_filter {stack out : List κ} {ds : List (Delimiter κ)} (h : run? stack ds = some out)
    (p : κ → Bool) :
    run? (stack.filter p) (ds.filter fun d => p d.kind) = some (out.filter p) := by
  induction ds generalizing stack with
  | nil =>
    obtain rfl : stack = out := by simpa using h
    rfl
  | cons d ds ih =>
    cases d with
    | opening k =>
      have hrest := ih h
      by_cases hk : p k = true
      · rw [List.filter_cons_of_pos hk] at hrest
        rw [List.filter_cons_of_pos (by exact hk)]
        exact hrest
      · rw [List.filter_cons_of_neg hk] at hrest
        rw [List.filter_cons_of_neg (by exact hk)]
        exact hrest
    | closing k =>
      obtain ⟨rest, rfl, hds⟩ := eq_cons_of_run?_closing h
      have hrest := ih hds
      by_cases hk : p k = true
      · rw [List.filter_cons_of_pos hk, List.filter_cons_of_pos (by exact hk), run?_closing_self]
        exact hrest
      · rw [List.filter_cons_of_neg hk, List.filter_cons_of_neg (by exact hk)]
        exact hrest

/-- A well-nested word leaves any stack as it was. -/
theorem WellNested.run? {ds : List (Delimiter κ)} (h : WellNested ds) (stack : List κ) :
    Delimiter.run? stack ds = some stack := by
  induction h generalizing stack with
  | nil => rfl
  | @enclose k inner rest _ _ ihinner ihrest =>
    rw [run?_opening, run?_append, ihinner, Option.bind_some, run?_closing_self, ihrest]

private theorem closes_of_run? {stack : List κ} {ds : List (Delimiter κ)}
    (h : run? stack ds = some []) : Closes stack ds := by
  induction ds generalizing stack with
  | nil =>
    obtain rfl : stack = [] := by simpa using h
    exact .nil
  | cons d ds ih =>
    cases d with
    | opening k =>
      obtain ⟨inner, rest, rfl, hinner, hrest⟩ := ih (by rwa [run?_opening] at h)
      exact closes_enclose hinner hrest
    | closing k =>
      obtain ⟨rest, rfl, hrest⟩ := eq_cons_of_run?_closing h
      exact ⟨[], ds, rfl, .nil, ih hrest⟩

/-- A word is well nested exactly if it can be followed with a stack that is empty at both ends. -/
theorem wellNested_iff {ds : List (Delimiter κ)} : WellNested ds ↔ run? [] ds = some [] :=
  ⟨fun h => h.run? [], fun h => closes_of_run? h⟩

/-- A word stays well nested when all delimiters of some kinds are left out. -/
theorem WellNested.filter {ds : List (Delimiter κ)} (h : WellNested ds) (p : κ → Bool) :
    WellNested (ds.filter fun d => p d.kind) :=
  wellNested_iff.mpr (run?_filter (wellNested_iff.mp h) p)

instance (ds : List (Delimiter κ)) : Decidable (WellNested ds) :=
  decidable_of_iff _ wellNested_iff.symm

end Delimiter

end ModuleBuild
