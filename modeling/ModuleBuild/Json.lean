import ModuleBuild.Number.Binary

/-!
# JSON values

An object is the list of its members in ascending order of their keys, which is the order of the
keys' bytes; no key occurs twice. Numbers are of two kinds: integers of 64 bits with or without a
sign, and floating-point numbers.
-/

namespace ModuleBuild

/-- A JSON number. -/
inductive Json.Number where
  /-- An integer between `-2 ^ 63` and `2 ^ 64 - 1`. -/
  | integer (value : Int)
  /-- A floating-point number; a negative zero is one. -/
  | floating (negative : Bool) (magnitude : Number.Magnitude)
  deriving DecidableEq, Repr

/-- A JSON value. -/
inductive Json where
  /-- The value `null`. -/
  | null
  /-- A truth value. -/
  | bool (value : Bool)
  /-- A number. -/
  | number (value : Json.Number)
  /-- A string. -/
  | string (value : String)
  /-- A sequence of values. -/
  | array (items : List Json)
  /-- Values under keys. -/
  | object (members : List (String × Json))
  deriving Repr, Inhabited

namespace Json

/-- Puts a value under a key; the members stay in ascending order, and an older value is replaced. -/
def insertMember {α : Type} (key : String) (value : α) : List (String × α) → List (String × α)
  | [] => [(key, value)]
  | (k, v) :: rest =>
    if key = k then (key, value) :: rest
    else if key < k then (key, value) :: (k, v) :: rest
    else (k, v) :: insertMember key value rest

/-- The value just put under a key is found there. -/
theorem lookup_insertMember_self {α : Type} (key : String) (value : α)
    (members : List (String × α)) : (insertMember key value members).lookup key = some value := by
  induction members with
  | nil => simp [insertMember]
  | cons m rest ih =>
    obtain ⟨k, v⟩ := m
    unfold insertMember
    split
    · simp
    · next h =>
      have hk : (key == k) = false := by simpa using h
      split
      · simp
      · rw [List.lookup_cons, hk]
        exact ih

/-- What stands under the other keys stays. -/
theorem lookup_insertMember_of_ne {α : Type} {key other : String} (h : other ≠ key) (value : α)
    (members : List (String × α)) :
    (insertMember key value members).lookup other = members.lookup other := by
  have hk : (other == key) = false := by simpa using h
  induction members with
  | nil => simp [insertMember, List.lookup_cons, hk]
  | cons m rest ih =>
    obtain ⟨k, v⟩ := m
    unfold insertMember
    split
    · next he => subst he; simp [List.lookup_cons, hk]
    · split
      · simp [List.lookup_cons, hk]
      · simp only [List.lookup_cons, ih]

/-- An integer as a value. -/
def ofInt (n : Int) : Json := number (.integer n)

/-- A natural number as a value. -/
def ofNat (n : Nat) : Json := ofInt n

mutual

/-- Whether two values are the same. -/
def same : Json → Json → Bool
  | null, null => true
  | bool a, bool b => a == b
  | number a, number b => a = b
  | string a, string b => a == b
  | array a, array b => sameItems a b
  | object a, object b => sameMembers a b
  | _, _ => false

/-- Whether two sequences hold the same values. -/
def sameItems : List Json → List Json → Bool
  | [], [] => true
  | a :: as, b :: bs => same a b && sameItems as bs
  | _, _ => false

/-- Whether two objects have the same members. -/
def sameMembers : List (String × Json) → List (String × Json) → Bool
  | [], [] => true
  | (k, a) :: as, (l, b) :: bs => k == l && same a b && sameMembers as bs
  | _, _ => false

end

end Json

end ModuleBuild
