import ModuleBuild.Path

/-!
# File trees

A file tree holds directories and files under their places, the names on the way from the root. What is
there lies in a directory, and that is part of the type: nothing can be put where it would not be so.

The operations are those of a file system without links: a path is followed one segment at a time, every
segment but the last must be a directory, and `..` leads to the parent of the directory reached.

Reading, writing and making a directory fail with a cause, and the causes are those that the tree
shows: there are no permissions, and no device fails or is full. So a text is written as a whole or not
at all, and when writing it fails, the file stays as it was. Making a directory with its parents may fail
half way; it then leaves the parents it has made.

Main statements: `isRooted_putEntry`, by which a change leaves a tree a tree, and `node?_put_self` and
`node?_put_of_ne`, by which it concerns one place only.
-/

namespace ModuleBuild

/-- Why an operation on files or on an output fails. -/
inductive IoError where
  /-- There is nothing at the place, or no directory on the way to it. -/
  | notFound
  /-- There is something at the place already. -/
  | alreadyExists
  /-- Something on the way is a file. -/
  | notADirectory
  /-- There is a directory where a file is needed. -/
  | isADirectory
  /-- The bytes are not the encoding of a text. -/
  | invalidText
  /-- The output takes no more bytes. -/
  | full
  deriving DecidableEq, Repr

namespace IoError

/-- The wording of the cause. -/
def message : IoError → String
  | notFound => "No such file or directory (os error 2)"
  | alreadyExists => "File exists (os error 17)"
  | notADirectory => "Not a directory (os error 20)"
  | isADirectory => "Is a directory (os error 21)"
  | invalidText => "stream did not contain valid UTF-8"
  | full => "full"

end IoError

/-- The names on the way from the root. -/
abbrev Place := List String

/-- What is at a place. -/
inductive Node where
  /-- A file with its bytes. -/
  | file (content : ByteArray)
  /-- A directory. -/
  | directory

instance : DecidableEq Node
  | .file a, .file b => decidable_of_iff (a.data = b.data) (by simp [ByteArray.ext_iff])
  | .directory, .directory => isTrue rfl
  | .file _, .directory => isFalse nofun
  | .directory, .file _ => isFalse nofun

namespace FileTree

/-! ## Entries -/

/-- What is at a place by a list of entries. The root is always a directory. -/
def nodeIn? (entries : List (Place × Node)) (place : Place) : Option Node :=
  if place = [] then some .directory else entries.lookup place

/-- Everything lies in a directory. -/
def IsRooted (entries : List (Place × Node)) : Prop :=
  ∀ e ∈ entries, nodeIn? entries e.1.dropLast = some .directory

/-- Sets what is at a place in a list of entries; a new place comes last. -/
def putEntry (place : Place) (node : Node) : List (Place × Node) → List (Place × Node)
  | [] => [(place, node)]
  | (q, m) :: rest =>
    if place = q then (place, node) :: rest else (q, m) :: putEntry place node rest

theorem lookup_putEntry_self (place : Place) (node : Node) (entries : List (Place × Node)) :
    (putEntry place node entries).lookup place = some node := by
  induction entries with
  | nil => simp [putEntry]
  | cons e rest ih =>
    obtain ⟨q, m⟩ := e
    unfold putEntry
    split
    · simp
    · next h =>
      have hq : (place == q) = false := by simpa using h
      rw [List.lookup_cons, hq]
      exact ih

theorem lookup_putEntry_of_ne {place other : Place} (h : other ≠ place) (node : Node)
    (entries : List (Place × Node)) :
    (putEntry place node entries).lookup other = entries.lookup other := by
  have hp : (other == place) = false := by simpa using h
  induction entries with
  | nil => simp [putEntry, List.lookup_cons, hp]
  | cons e rest ih =>
    obtain ⟨q, m⟩ := e
    unfold putEntry
    split
    · next he => subst he; simp [List.lookup_cons, hp]
    · simp only [List.lookup_cons, ih]

theorem mem_of_mem_putEntry {place : Place} {node : Node} {entries : List (Place × Node)}
    {e : Place × Node} (h : e ∈ putEntry place node entries) : e = (place, node) ∨ e ∈ entries := by
  induction entries with
  | nil => simpa [putEntry] using h
  | cons f rest ih =>
    obtain ⟨q, m⟩ := f
    rw [putEntry] at h
    split at h
    · rcases List.mem_cons.mp h with rfl | hrest
      · exact Or.inl rfl
      · exact Or.inr (List.mem_cons_of_mem _ hrest)
    · rcases List.mem_cons.mp h with rfl | hrest
      · exact Or.inr List.mem_cons_self
      · exact (ih hrest).imp_right (List.mem_cons_of_mem _)

section

variable {place other : Place} {node : Node} {entries : List (Place × Node)}
  (hnode : nodeIn? entries place = some .directory → node = .directory)

include hnode

/-- What is set takes no directory away, unless it is a file in place of one. -/
theorem nodeIn?_putEntry (hdir : nodeIn? entries other = some .directory) :
    nodeIn? (putEntry place node entries) other = some .directory := by
  by_cases hroot : other = []
  · rw [nodeIn?, if_pos hroot]
  · by_cases hplace : other = place
    · rw [nodeIn?, if_neg hroot, hplace, lookup_putEntry_self, hnode (hplace ▸ hdir)]
    · rw [nodeIn?, if_neg hroot] at hdir ⊢
      rwa [lookup_putEntry_of_ne hplace]

/-- Everything still lies in a directory if what is new was set in one. -/
theorem isRooted_putEntry (h : IsRooted entries)
    (hparent : nodeIn? entries place.dropLast = some .directory) :
    IsRooted (putEntry place node entries) := by
  intro e he
  rcases mem_of_mem_putEntry he with rfl | he
  · exact nodeIn?_putEntry hnode hparent
  · exact nodeIn?_putEntry hnode (h e he)

end

end FileTree

/-- Directories and files under their places. -/
structure FileTree where
  /-- The directory in which relative paths start. -/
  workingDirectory : Place := []
  /-- What is at each place; the first entry for a place counts. -/
  entries : List (Place × Node) := []
  /-- Everything lies in a directory. -/
  rooted : FileTree.IsRooted entries := by simp [FileTree.IsRooted, FileTree.nodeIn?]
  deriving DecidableEq

namespace FileTree

/-! ## Single places -/

/-- What is at a place. -/
def node? (t : FileTree) (place : Place) : Option Node := nodeIn? t.entries place

/-- Where something is, its parent is a directory. -/
theorem node?_dropLast {t : FileTree} {place : Place} {node : Node} (h : t.node? place = some node) :
    t.node? place.dropLast = some .directory := by
  rw [node?, nodeIn?] at h
  split at h
  · next hroot =>
    rw [hroot]
    rfl
  · obtain ⟨before, after, hentries, -⟩ := List.lookup_eq_some_iff.mp h
    exact t.rooted (place, node) (by simp [hentries])

/-- Something may be set at a place that lies in a directory, but no file in place of a directory. -/
def Admits (t : FileTree) (place : Place) (node : Node) : Prop :=
  t.node? place.dropLast = some .directory ∧ (t.node? place = some .directory → node = .directory)

instance (t : FileTree) (place : Place) (node : Node) : Decidable (t.Admits place node) :=
  inferInstanceAs (Decidable (_ ∧ _))

/-- Sets what is at a place, where it may be set. -/
def put (t : FileTree) (place : Place) (node : Node) : FileTree :=
  if h : t.Admits place node then
    { t with
      entries := putEntry place node t.entries
      rooted := isRooted_putEntry h.2 t.rooted h.1 }
  else t

/-- What was set at a place is there. -/
theorem node?_put_self {t : FileTree} {place : Place} {node : Node} (h : t.Admits place node) :
    (t.put place node).node? place = some node := by
  rw [put, dif_pos h, node?, nodeIn?]
  split
  · next hroot =>
    subst hroot
    rw [h.2 rfl]
  · exact lookup_putEntry_self ..

/-- Setting what is at one place changes no other. -/
theorem node?_put_of_ne {t : FileTree} {place other : Place} (h : other ≠ place) (node : Node) :
    (t.put place node).node? other = t.node? other := by
  rw [put]
  split
  · rw [node?, node?, nodeIn?, nodeIn?, lookup_putEntry_of_ne h]
  · rfl

theorem workingDirectory_put (t : FileTree) (place : Place) (node : Node) :
    (t.put place node).workingDirectory = t.workingDirectory := by
  rw [put]
  split <;> rfl

/-- Sets what is at a place, and directories on the way to it where there is nothing, as far as they may
be set. -/
def plant (t : FileTree) (place : Place) (node : Node) : FileTree :=
  let way := (List.range place.length).map place.take
  let make (t : FileTree) (p : Place) : FileTree :=
    if (t.node? p).isSome then t else t.put p .directory
  (way.foldl make t).put place node

/-- The path of the working directory. -/
def workingPath (t : FileTree) : Path := ⟨"/" ++ "/".intercalate t.workingDirectory⟩

/-! ## Following paths -/

/-- The place one segment further. -/
def move (place : Place) (s : Path.Segment) : Place :=
  if Path.isVoid s then place
  else if s = ['.', '.'] then place.dropLast
  else place ++ [String.ofList s]

/-- Goes on from a place over segments. A segment needs a directory to start from. -/
def walk (t : FileTree) (place : Place) : List Path.Segment → Except IoError Place
  | [] => .ok place
  | s :: ss =>
    match t.node? place with
    | some .directory => walk t (move place s) ss
    | some (.file _) => .error .notADirectory
    | none => .error .notFound

/-- The segments of a path on which it is followed. A slash at the end stands for a `.` behind it. -/
def waypoints (p : Path) : List Path.Segment :=
  p.segments.filter (· ≠ []) ++ if p.endsInSlash then [['.']] else []

/-- The place at which a path starts. -/
def origin (t : FileTree) (p : Path) : Place := if p.isAbsolute then [] else t.workingDirectory

/-- The places that are passed from a place on over segments. -/
def stops (place : Place) : List Path.Segment → List Place
  | [] => []
  | s :: ss => move place s :: stops (move place s) ss

/-- The places that are passed along a path, the last one included. -/
def placesOn (t : FileTree) (p : Path) : List Place := stops (t.origin p) (waypoints p)

/-- The place to which a path leads. Something need not be there. -/
def locate (t : FileTree) (p : Path) : Except IoError Place :=
  if p.text = "" then .error .notFound else t.walk (t.origin p) (waypoints p)

/-- The place of the last name of a path, if it ends in a name; a slash behind the name does not
matter. The directories on the way must be there. -/
def target (t : FileTree) (p : Path) : Except IoError (Option Place) :=
  let way := p.segments.filter (· ≠ [])
  if p.text = "" then .error .notFound
  else
    match way.getLast? with
    | none => .ok none
    | some last =>
      match t.walk (t.origin p) way with
      | .error e => .error e
      | .ok place => .ok (if last = ['.'] ∨ last = ['.', '.'] then none else some place)

/-- Whether a path leads to a directory. -/
def isDirectory (t : FileTree) (p : Path) : Bool :=
  match t.locate p with
  | .ok place => t.node? place = some .directory
  | .error _ => false

/-! ## Files -/

/-- The bytes of the file to which a path leads. -/
def readBytes (t : FileTree) (p : Path) : Except IoError ByteArray :=
  match t.locate p with
  | .error e => .error e
  | .ok place =>
    match t.node? place with
    | some (.file content) => .ok content
    | some .directory => .error .isADirectory
    | none => .error .notFound

/-- The text of the file to which a path leads. -/
def readText (t : FileTree) (p : Path) : Except IoError String :=
  match t.readBytes p with
  | .error e => .error e
  | .ok content =>
    match String.fromUTF8? content with
    | some text => .ok text
    | none => .error .invalidText

/-- Writes a text to a file, which is made if it is not there. -/
def writeText (t : FileTree) (p : Path) (text : String) : Except IoError FileTree :=
  match t.target p with
  | .error e => .error e
  | .ok none => .error .isADirectory
  | .ok (some place) =>
    if p.endsInSlash || t.node? place = some .directory then .error .isADirectory
    else .ok (t.put place (.file text.toUTF8))

/-! ## Directories -/

/-- Makes a directory in a directory that is there. -/
def makeDirectory (t : FileTree) (p : Path) : Except IoError FileTree :=
  match t.target p with
  | .error e => .error e
  | .ok none => .error .alreadyExists
  | .ok (some place) =>
    if (t.node? place).isSome then .error .alreadyExists else .ok (t.put place .directory)

/-- Makes a directory in a directory that is there, unless it is there already. -/
def ensureDirectory (t : FileTree) (p : Path) : Except IoError FileTree :=
  match t.makeDirectory p with
  | .ok t => .ok t
  | .error e => if e = .alreadyExists && t.isDirectory p then .ok t else .error e

/-- Makes a directory, given with its parents upwards, and the parents that are not there. A
directory that is there already is no error. -/
def makeDirectoriesUp (t : FileTree) : List Path → FileTree × Option IoError
  | [] => (t, none)
  | p :: parents =>
    if p.text = "" then (t, none)
    else
      match t.ensureDirectory p with
      | .ok t => (t, none)
      | .error .notFound =>
        match makeDirectoriesUp t parents with
        | (t, some e) => (t, some e)
        | (t, none) =>
          match t.ensureDirectory p with
          | .ok t => (t, none)
          | .error e => (t, some e)
      | .error e => (t, some e)

/-- Makes a directory and the parents that are not there. -/
def makeDirectories (t : FileTree) (p : Path) : FileTree × Option IoError :=
  t.makeDirectoriesUp p.ancestors

end FileTree

end ModuleBuild
