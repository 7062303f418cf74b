import ModuleBuild.Json.Printer
import ModuleBuild.Json.Reader

/-!
# Optional values

What the standard library does not have on optional values: combinators whose continuation is run
when the value is missing, and the written forms of an optional integer of 64 bits.

Main statement: `ofJson?_toJson`, by which the JSON form can be read back.
-/

namespace ModuleBuild.Optional

/-! ## Missing values -/

section

variable {m : Type → Type} [Monad m] {α β ε : Type}

/-- Tries something else if the value is missing. -/
def recoverM (instead : m (Option α)) : Option α → m (Option α)
  | none => instead
  | some a => return some a

/-- Runs one of two computations. -/
def casesM (missing : m β) (present : α → m β) : Option α → m β
  | none => missing
  | some a => present a

/-- Makes a missing value an error. -/
def orErrorM (error : m ε) : Option α → m (Except ε α)
  | none => Except.error <$> error
  | some a => return .ok a

theorem recoverM_some (instead : m (Option α)) (a : α) :
    recoverM instead (some a) = pure (some a) := rfl

theorem orErrorM_some (error : m ε) (a : α) : orErrorM error (some a) = pure (.ok a) := rfl

end

/-- The error of a value that is needed and missing. -/
def missing : String := "value is absent"

/-- The value, or the error of a missing one. -/
def required {α : Type} : Option α → Except String α
  | none => .error missing
  | some a => .ok a

/-! ## Written forms -/

/-- The text of an optional integer. -/
def write : Option Int64 → String
  | none => "<None>"
  | some n => toString n.toInt

/-- An optional integer as JSON. -/
def toJson : Option Int64 → Json
  | none => .null
  | some n => .ofInt n.toInt

/-- The optional integer that a JSON value is. -/
def ofJson? : Json → Option (Option Int64)
  | .null => some none
  | .number (.integer n) =>
    if Int64.minValue.toInt ≤ n ∧ n ≤ Int64.maxValue.toInt then some (some (Int64.ofInt n)) else none
  | _ => none

/-- The optional integer that a JSON text is. -/
def read? (text : String) : Option (Option Int64) := (Json.read? text).bind ofJson?

/-- The JSON form of an optional integer reads back. -/
theorem ofJson?_toJson (o : Option Int64) : ofJson? (toJson o) = some o := by
  cases o with
  | none => rfl
  | some n =>
    have h₁ : Int64.minValue.toInt ≤ n.toInt := n.le_toInt
    have h₂ : n.toInt ≤ Int64.maxValue.toInt := Int.le_of_lt_add_one n.toInt_lt
    simp only [toJson, Json.ofInt, ofJson?, Int64.ofInt_toInt]
    exact if_pos ⟨h₁, h₂⟩

end ModuleBuild.Optional
