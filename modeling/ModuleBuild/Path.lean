/-!
# Paths

A path is kept exactly as it was written. Reading it, it falls into segments between slashes; empty
segments and the segment `.` mean nothing, except that a leading slash makes the path absolute and a
leading `.` counts as a component of a relative path. Two paths are the same if their components
are.

The operations on the last component (`parent?`, `fileName?`, `withExtension`) drop what means
nothing behind it and keep the text in front of it as written. `normalize` resolves `.` and `..`
without looking at any file.
-/

namespace ModuleBuild

/-- A path as written. -/
structure Path where
  /-- The text. -/
  text : String
  deriving DecidableEq, Repr, Inhabited

namespace Path

/-! ## Segments -/

/-- The text between two slashes. -/
abbrev Segment := List Char

/-- The parts of a text between its slashes; there is one more of them than there are slashes. -/
def splitSlash : List Char → List Segment
  | [] => [[]]
  | c :: cs =>
    if c = '/' then [] :: splitSlash cs
    else
      match splitSlash cs with
      | [] => [[c]]
      | s :: ss => (c :: s) :: ss

/-- The text with slashes between the parts. -/
def joinSlash : List Segment → List Char
  | [] => []
  | [s] => s
  | s :: t :: ss => s ++ '/' :: joinSlash (t :: ss)

/-- The segments of a path. -/
def segments (p : Path) : List Segment := splitSlash p.text.toList

/-- Whether a segment means nothing behind the front of a path. -/
def isVoid (s : Segment) : Bool := s = [] || s = ['.']

/-- Whether the path starts at the root. -/
def isAbsolute (p : Path) : Bool := p.text.toList.head? = some '/'

/-- Whether the path ends in a slash. -/
def endsInSlash (p : Path) : Bool := p.text.toList.getLast? = some '/'

/-- The segment at the front that has a meaning of its own: the empty one of an absolute path or a
leading `.`, if there is one; and the segments behind it. -/
def split (p : Path) : List Segment × List Segment :=
  if p.text = "" then ([], [])
  else
    match p.segments with
    | [] :: body => ([[]], body)
    | ['.'] :: body => ([['.']], body)
    | body => ([], body)

/-! ## Components -/

/-- A meaningful part of a path. -/
inductive Component where
  /-- The root directory, at the front of an absolute path. -/
  | root
  /-- A `.` at the front of a relative path. -/
  | here
  /-- The parent directory, `..`. -/
  | up
  /-- A name. -/
  | name (text : String)
  deriving DecidableEq, Repr

/-- The component that a segment behind the front is. -/
def Component.ofSegment? (s : Segment) : Option Component :=
  if isVoid s then none else if s = ['.', '.'] then some .up else some (.name (String.ofList s))

/-- The text of a component. -/
def Component.text : Component → Segment
  | .root => []
  | .here => ['.']
  | .up => ['.', '.']
  | .name s => s.toList

/-- The components of a path. -/
def components (p : Path) : List Component :=
  let (front, body) := p.split
  front.map (fun s => if s = [] then .root else .here) ++ body.filterMap Component.ofSegment?

/-- Whether two paths have the same components. -/
def sameAs (p q : Path) : Bool := p.components = q.components

/-- The path made of a root or of nothing, followed by components. -/
def ofComponents (cs : List Component) : Path :=
  match cs with
  | .root :: cs => ⟨String.ofList ('/' :: joinSlash (cs.map Component.text))⟩
  | cs => ⟨String.ofList (joinSlash (cs.map Component.text))⟩

/-! ## Joining -/

/-- `q` seen from `p`: an absolute `q` replaces `p`, any other is written behind it. -/
def join (p q : Path) : Path :=
  if q.isAbsolute then q
  else if p.text = "" || p.endsInSlash then ⟨p.text ++ q.text⟩
  else ⟨p.text ++ "/" ++ q.text⟩

/-! ## Parents and the last component -/

/-- The path of a front and the segments behind it. -/
def ofSplit (front body : List Segment) : Path :=
  if front = [[]] && body = [] then ⟨"/"⟩ else ⟨String.ofList (joinSlash (front ++ body))⟩

/-- A path and its parents, from itself upwards, the segments behind the front being given in
reverse. -/
def parentsOf (front reversed : List Segment) : List Path :=
  match _h : reversed.dropWhile isVoid with
  | [] => if front = [['.']] then [⟨""⟩] else []
  | _ :: before =>
    let kept := before.dropWhile isVoid
    ofSplit front kept.reverse :: parentsOf front kept
termination_by reversed.length
decreasing_by
  have h₁ := (List.dropWhile_sublist isVoid (l := reversed)).length_le
  have h₂ := (List.dropWhile_sublist isVoid (l := before)).length_le
  rw [_h, List.length_cons] at h₁
  omega

/-- A path and its parents, from itself upwards. -/
def ancestors (p : Path) : List Path :=
  let (front, body) := p.split
  p :: parentsOf front body.reverse

/-- The path without its last component, which is written like the text in front of it. The root and
the empty path have no parent. -/
def parent? (p : Path) : Option Path := p.ancestors.tail.head?

/-- The last component, if it is a name. -/
def fileName? (p : Path) : Option String :=
  match p.components.getLast? with
  | some (.name s) => some s
  | _ => none

/-- A name cut at its last point: what is in front of it, and what is behind it if there is a point
that is not the first character. -/
def cutName (name : List Char) : List Char × Option (List Char) :=
  let behind := (name.reverse.takeWhile (· != '.')).reverse
  let stem := name.take (name.length - behind.length - 1)
  if behind = name || stem = [] then (name, none) else (stem, some behind)

/-- The name of the file without its extension. -/
def fileStem? (p : Path) : Option String := p.fileName?.map fun s => String.ofList (cutName s.toList).1

/-- The extension of the file: what follows the last point of its name. -/
def extension? (p : Path) : Option String :=
  p.fileName?.bind fun s => (cutName s.toList).2.map String.ofList

/-- The path cut behind the stem of its file name and continued with a point and an extension. A
path that does not end in a name stays as it is. -/
def setExtension (p : Path) (extension : String) : Path :=
  match p.fileStem? with
  | none => p
  | some stem =>
    let (front, body) := p.split
    let before := (body.reverse.dropWhile isVoid).tail.reverse
    ⟨String.ofList (joinSlash (front ++ before ++ [stem.toList]) ++ '.' :: extension.toList)⟩

/-- The path with another extension. An old extension is first cut off the end of the text, by its
length, and only then is the stem looked for. -/
def withExtension (p : Path) (extension : String) : Path :=
  match p.extension? with
  | none => p.setExtension extension
  | some old =>
    let text := p.text.toList
    setExtension ⟨String.ofList (text.take (text.length - old.toList.length))⟩ extension

/-! ## Resolving dots -/

/-- Goes on from the components `stack`, the last one first, to the next component. The parent of
the root is the root; the parent of a relative path that has no more names is kept as `..`. -/
def Component.push (stack : List Component) (c : Component) : List Component :=
  match c, stack with
  | .here, stack => stack
  | .up, .name _ :: stack => stack
  | .up, .root :: stack => .root :: stack
  | c, stack => c :: stack

/-- The components without `.`, and with `..` only at the front of a relative path. -/
def normalComponents (p : Path) : List Component :=
  (p.components.foldl Component.push []).reverse

/-- The path with its dots resolved. -/
def normalize (p : Path) : Path := ofComponents p.normalComponents

end Path

instance : ToString Path := ⟨Path.text⟩

end ModuleBuild
