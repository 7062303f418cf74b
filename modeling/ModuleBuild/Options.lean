import ModuleBuild.Json
import ModuleBuild.Path

/-!
# Engine options

The options of an engine are a JSON object. An option that has another type than the one it is asked
for counts as absent, and options that nobody asks for are passed on.
-/

namespace ModuleBuild

/-- Options by name, in ascending order of the names. -/
structure Options where
  /-- The members of the JSON object. -/
  members : List (String × Json) := []
  deriving Inhabited

namespace Options

/-- The value of an option. -/
def get? (o : Options) (key : String) : Option Json := o.members.lookup key

/-- The value of an option that is a truth value. -/
def flag? (o : Options) (key : String) : Option Bool :=
  match o.get? key with
  | some (.bool b) => some b
  | _ => none

/-- Whether an option is the truth value `true`. -/
def isSet (o : Options) (key : String) : Bool := (o.flag? key).getD false

/-- The directory for emitted files, if it is given as a string. -/
def outDir? (o : Options) : Option Path :=
  match o.get? "outDir" with
  | some (.string s) => some ⟨s⟩
  | _ => none

/-- Sets an option. -/
def insert (o : Options) (key : String) (value : Json) : Options :=
  ⟨Json.insertMember key value o.members⟩

/-- The same options with another directory for emitted files. -/
def withOutDir (o : Options) (dir : Path) : Options := o.insert "outDir" (.string dir.text)

/-- Whether no option is given. -/
def isEmpty (o : Options) : Bool := o.members.isEmpty

/-- The options as a JSON value. -/
def toJson (o : Options) : Json := .object o.members

/-- Whether two sets of options hold the same values. -/
def same (a b : Options) : Bool := a.toJson.same b.toJson

theorem get?_insert_self (o : Options) (key : String) (value : Json) :
    (o.insert key value).get? key = some value :=
  Json.lookup_insertMember_self ..

theorem get?_insert_of_ne (o : Options) {key other : String} (h : other ≠ key) (value : Json) :
    (o.insert key value).get? other = o.get? other :=
  Json.lookup_insertMember_of_ne h ..

/-- The directory just set is the directory for emitted files. -/
theorem outDir?_withOutDir (o : Options) (dir : Path) : (o.withOutDir dir).outDir? = some dir := by
  simp [outDir?, withOutDir, get?_insert_self]

/-- Setting the directory keeps the other flags. -/
theorem flag?_withOutDir (o : Options) (dir : Path) {key : String} (h : key ≠ "outDir") :
    (o.withOutDir dir).flag? key = o.flag? key := by
  simp [flag?, withOutDir, get?_insert_of_ne o h]

end Options

end ModuleBuild
