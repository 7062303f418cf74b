import ModuleBuild.Proofs.Path.Segments

/-!
# Where paths lead

A path has a meaning that does not depend on any file: its segments are followed one after the other,
where a name goes down, `..` goes up and nothing else moves. `Destination` is that meaning. It starts at
the root or some directories above the one from which the path is seen, and only names follow.

Resolving the dots of a path writes down its destination. So the result is known by its destination, and
everything about resolving follows from what `move` does with one segment.

Main statements: `normalize_eq_path_destination` and `destination_join`, by which a path behind another
one is followed from where the first one leads.
-/

namespace ModuleBuild.Path

/-! ## Destinations -/

/-- Whether a segment of this text is a name. -/
def IsName (s : String) : Prop := s ≠ "" ∧ s ≠ "." ∧ s ≠ ".." ∧ '/' ∉ s.toList

/-- Where the names of a destination start. -/
inductive Anchor where
  /-- At the root. -/
  | root
  /-- So many directories above the one from which a path is seen. -/
  | above (n : Nat)
  deriving DecidableEq, Repr

/-- What a path means if no directory is looked at. -/
structure Destination where
  anchor : Anchor
  names : List String
  deriving DecidableEq, Repr

namespace Destination

/-- The directory from which paths are seen. -/
def here : Destination := ⟨.above 0, []⟩

/-- The parent. The root has none and stays. -/
def up : Destination → Destination
  | ⟨.above n, []⟩ => ⟨.above (n + 1), []⟩
  | ⟨anchor, names⟩ => ⟨anchor, names.dropLast⟩

/-- Follows one segment. -/
def move (d : Destination) (s : Segment) : Destination :=
  if isVoid s then d
  else if s = ['.', '.'] then d.up
  else ⟨d.anchor, d.names ++ [String.ofList s]⟩

/-- The components of the destination. -/
def components (d : Destination) : List Component :=
  (match d.anchor with
    | .root => [.root]
    | .above n => List.replicate n .up) ++ d.names.map .name

/-- The destination as it is written. -/
def path (d : Destination) : Path := ofComponents d.components

/-- The names are names. -/
def IsProper (d : Destination) : Prop := ∀ name ∈ d.names, IsName name

end Destination

/-- Where a path leads, seen from a destination. -/
def destination (p : Path) (start : Destination) : Destination :=
  p.segments.foldl Destination.move (if p.isAbsolute then ⟨.root, []⟩ else start)

/-! ## Components and segments -/

/-- The components of a path are those of its segments, behind the one that its front is. -/
theorem components_cases (p : Path) :
    (p.isAbsolute = true ∧ p.components = .root :: p.segments.filterMap Component.ofSegment?) ∨
      p.isAbsolute = false ∧
        (p.segments.head? = some ['.'] ∧
            p.components = .here :: p.segments.filterMap Component.ofSegment? ∨
          p.segments.head? ≠ some ['.'] ∧
            p.components = p.segments.filterMap Component.ofSegment?) := by
  by_cases hp : p.text = ""
  · have hsegments : p.segments = [[]] := by simp [segments, hp, splitSlash]
    have hcomponents : p.components = [] := by simp [components, split, hp]
    right
    rw [hsegments, hcomponents]
    exact ⟨by simp [isAbsolute, hp], Or.inr ⟨by simp, rfl⟩⟩
  · have hsplit := split_append hp
    have hcomponents : p.components = p.split.1.map (fun s => if s = [] then .root else .here) ++
        p.split.2.filterMap Component.ofSegment? := rfl
    rcases split_cases hp with ⟨habsolute, hfront⟩ | ⟨hrelative, hfront | ⟨hfront, -⟩⟩
    · left
      rw [hcomponents, ← hsplit, hfront]
      exact ⟨habsolute, rfl⟩
    · right
      rw [hcomponents, ← hsplit, hfront]
      exact ⟨hrelative, Or.inl ⟨rfl, rfl⟩⟩
    · right
      refine ⟨hrelative, Or.inr ?_⟩
      constructor
      · intro hdot
        obtain ⟨rest, hrest⟩ := List.head?_eq_some_iff.mp hdot
        simp [split, hp, hrest] at hfront
      · rw [hcomponents, ← hsplit, hfront]
        rfl

theorem isVoid_eq_false {s : String} (h : IsName s) : isVoid s.toList = false := by
  obtain ⟨hnil, hdot, -, -⟩ := h
  have hchars : s.toList ≠ ['.'] := fun hcon => hdot (String.toList_inj.mp hcon)
  simp [isVoid, hnil, hchars]

theorem ofSegment?_toList {s : String} (h : IsName s) :
    Component.ofSegment? s.toList = some (.name s) := by
  have hdots : s.toList ≠ ['.', '.'] := fun hcon => h.2.2.1 (String.toList_inj.mp hcon)
  simp [Component.ofSegment?, isVoid_eq_false h, hdots]

/-- A segment that means a name is a name. -/
theorem isName_of_segment {s : Segment} (hslash : '/' ∉ s) (hvoid : isVoid s = false)
    (hdots : s ≠ ['.', '.']) : IsName (String.ofList s) := by
  have hvoid' : s ≠ [] ∧ s ≠ ['.'] := by simpa [isVoid] using hvoid
  refine ⟨?_, ?_, ?_, by simpa using hslash⟩
  · intro hcon
    exact hvoid'.1 (by simpa using congrArg String.toList hcon)
  · intro hcon
    exact hvoid'.2 (by simpa using congrArg String.toList hcon)
  · intro hcon
    exact hdots (by simpa using congrArg String.toList hcon)

/-! ## Following segments -/

namespace Destination

variable {d : Destination}

theorem move_of_isVoid {s : Segment} (h : isVoid s = true) (d : Destination) : d.move s = d := by
  simp [move, h]

theorem move_dots (d : Destination) : d.move ['.', '.'] = d.up := rfl

theorem move_name {s : String} (h : IsName s) (d : Destination) :
    d.move s.toList = ⟨d.anchor, d.names ++ [s]⟩ := by
  have hdots : s.toList ≠ ['.', '.'] := fun hcon => h.2.2.1 (String.toList_inj.mp hcon)
  simp [move, isVoid_eq_false h, hdots]

theorem up_concat (anchor : Anchor) (names : List String) (name : String) :
    (⟨anchor, names ++ [name]⟩ : Destination).up = ⟨anchor, names⟩ := by
  have hlast : (names ++ [name]).dropLast = names := List.dropLast_concat
  conv_rhs => rw [← hlast]
  unfold up
  split
  · next heq => simp at heq
  · next heq =>
    cases heq
    rfl

theorem IsProper.up (h : d.IsProper) : d.up.IsProper := by
  obtain ⟨anchor, names⟩ := d
  rcases List.eq_nil_or_concat names with rfl | ⟨init, name, rfl⟩
  · cases anchor with
    | root => exact h
    | above n => exact nofun
  · rw [List.concat_eq_append, up_concat]
    exact fun n hn => h n (by simp [hn])

theorem IsProper.move (h : d.IsProper) {s : Segment} (hslash : '/' ∉ s) : (d.move s).IsProper := by
  unfold Destination.move
  split
  · exact h
  · next hvoid =>
    split
    · exact h.up
    · next hdots =>
      intro name hname
      rcases List.mem_append.mp hname with hname | hname
      · exact h name hname
      · rw [List.mem_singleton.mp hname]
        exact isName_of_segment hslash (Bool.not_eq_true _ ▸ hvoid) hdots

theorem IsProper.foldl_move (h : d.IsProper) {ss : List Segment} (hslash : ∀ s ∈ ss, '/' ∉ s) :
    (ss.foldl Destination.move d).IsProper := by
  induction ss generalizing d with
  | nil => exact h
  | cons s ss ih =>
    exact ih (h.move (hslash s (List.mem_cons_self ..))) fun t ht => hslash t (List.mem_cons_of_mem _ ht)

theorem foldl_move_names {names : List String} (h : ∀ name ∈ names, IsName name) (d : Destination) :
    (names.map String.toList).foldl move d = ⟨d.anchor, d.names ++ names⟩ := by
  induction names generalizing d with
  | nil => simp
  | cons name names ih =>
    rw [List.map_cons, List.foldl_cons, move_name (h name (List.mem_cons_self ..)),
      ih fun n hn => h n (List.mem_cons_of_mem _ hn)]
    simp

theorem foldl_move_dots (m n : Nat) :
    (List.replicate m ['.', '.']).foldl move ⟨.above n, []⟩ = ⟨.above (n + m), []⟩ := by
  induction m generalizing n with
  | zero => rfl
  | succ m ih =>
    rw [List.replicate_succ, List.foldl_cons]
    show (List.replicate m ['.', '.']).foldl move ⟨.above (n + 1), []⟩ = _
    rw [ih, Nat.add_assoc, Nat.add_comm 1 m]

end Destination

theorem isProper_destination (p : Path) {start : Destination} (h : start.IsProper) :
    (p.destination start).IsProper := by
  unfold destination
  refine Destination.IsProper.foldl_move ?_ fun s hs => not_mem_of_mem_splitSlash hs
  split
  · exact nofun
  · exact h

theorem isProper_destination_here (p : Path) : (p.destination .here).IsProper :=
  isProper_destination p fun _ h => absurd h List.not_mem_nil

/-! ## Following components -/

section Folding

variable {β : Type} {f : β → Component → β} {g : Destination → β}

/-- A function of destinations can be computed along the components of segments, if it can for each of
them. -/
theorem foldl_filterMap_segments (hup : ∀ d : Destination, d.IsProper → f (g d) .up = g d.up)
    (hname : ∀ (d : Destination) name, d.IsProper → IsName name →
      f (g d) (.name name) = g ⟨d.anchor, d.names ++ [name]⟩)
    {d : Destination} (h : d.IsProper) {ss : List Segment} (hslash : ∀ s ∈ ss, '/' ∉ s) :
    (ss.filterMap Component.ofSegment?).foldl f (g d) = g (ss.foldl Destination.move d) := by
  induction ss generalizing d with
  | nil => rfl
  | cons s ss ih =>
    have hs : '/' ∉ s := hslash s (List.mem_cons_self ..)
    rw [List.foldl_cons, ← ih (h.move hs) fun t ht => hslash t (List.mem_cons_of_mem _ ht)]
    by_cases hvoid : isVoid s = true
    · have hnone : Component.ofSegment? s = none := by simp [Component.ofSegment?, hvoid]
      rw [List.filterMap_cons_none hnone, Destination.move_of_isVoid hvoid]
    · by_cases hdots : s = ['.', '.']
      · subst hdots
        have hsome : Component.ofSegment? ['.', '.'] = some .up := rfl
        rw [List.filterMap_cons_some hsome, List.foldl_cons, hup d h, Destination.move_dots]
      · have hsome : Component.ofSegment? s = some (.name (String.ofList s)) := by
          simp [Component.ofSegment?, hvoid, hdots]
        have hmove : d.move s = ⟨d.anchor, d.names ++ [String.ofList s]⟩ := by
          simp [Destination.move, hvoid, hdots]
        have hs' := isName_of_segment hs (Bool.not_eq_true _ ▸ hvoid) hdots
        rw [List.filterMap_cons_some hsome, List.foldl_cons, hname d _ h hs', hmove]

/-- A function of destinations can be computed along the components of a path. -/
theorem foldl_components (hroot : f (g .here) .root = g ⟨.root, []⟩) (hhere : f (g .here) .here = g .here)
    (hup : ∀ d : Destination, d.IsProper → f (g d) .up = g d.up)
    (hname : ∀ (d : Destination) name, d.IsProper → IsName name →
      f (g d) (.name name) = g ⟨d.anchor, d.names ++ [name]⟩) (p : Path) :
    p.components.foldl f (g .here) = g (p.destination .here) := by
  have hslash : ∀ s ∈ p.segments, '/' ∉ s := fun s hs => not_mem_of_mem_splitSlash hs
  have hfold : ∀ d : Destination, d.IsProper →
      (p.segments.filterMap Component.ofSegment?).foldl f (g d) =
        g (p.segments.foldl Destination.move d) :=
    fun d h => foldl_filterMap_segments hup hname h hslash
  unfold destination
  rcases components_cases p with ⟨habsolute, hcomponents⟩ | ⟨hrelative, ⟨-, hcomponents⟩ | ⟨-, hcomponents⟩⟩
  · rw [hcomponents, habsolute, if_pos rfl, List.foldl_cons, hroot]
    exact hfold ⟨.root, []⟩ nofun
  · rw [hcomponents, hrelative, if_neg Bool.false_ne_true, List.foldl_cons, hhere]
    exact hfold ⟨.above 0, []⟩ nofun
  · rw [hcomponents, hrelative, if_neg Bool.false_ne_true]
    exact hfold ⟨.above 0, []⟩ nofun

end Folding

/-! ## Resolving -/

namespace Destination

theorem push_up (d : Destination) :
    Component.push d.components.reverse .up = d.up.components.reverse := by
  obtain ⟨anchor, names⟩ := d
  rcases List.eq_nil_or_concat names with rfl | ⟨init, name, rfl⟩
  · cases anchor with
    | root => rfl
    | above n =>
      show Component.push (List.replicate n Component.up ++ []).reverse .up =
        (List.replicate (n + 1) Component.up ++ []).reverse
      rw [List.append_nil, List.append_nil, List.reverse_replicate, List.reverse_replicate,
        List.replicate_succ]
      cases n <;> rfl
  · rw [List.concat_eq_append, up_concat]
    simp [components, Component.push]

theorem push_name (d : Destination) (name : String) :
    Component.push d.components.reverse (.name name) =
      (⟨d.anchor, d.names ++ [name]⟩ : Destination).components.reverse := by
  have hpush : ∀ stack, Component.push stack (.name name) = .name name :: stack := fun _ => rfl
  rw [hpush]
  simp [components]

end Destination

/-- Resolving the dots of a path gives the components of where it leads. -/
theorem normalComponents_eq (p : Path) :
    p.normalComponents = (p.destination .here).components := by
  have hfold := foldl_components (f := Component.push) (g := fun d => d.components.reverse) rfl rfl
    (fun d _ => d.push_up) (fun d name _ _ => d.push_name name) p
  exact List.reverse_eq_iff.mpr hfold

theorem normalize_eq_path_destination (p : Path) : p.normalize = (p.destination .here).path := by
  rw [normalize, normalComponents_eq]
  rfl

/-! ## Written destinations -/

theorem joinSlash_eq_intercalate (ss : List Segment) : joinSlash ss = ['/'].intercalate ss := by
  induction ss with
  | nil => rfl
  | cons s ss ih =>
    by_cases hss : ss = []
    · subst hss
      simp [joinSlash]
    · rw [joinSlash_cons_of_ne_nil s hss, ih, List.intercalate_cons_of_ne_nil hss]
      simp

namespace Destination

variable {d : Destination}

/-- The segments in front of the parts: the empty one of the root. -/
def front (d : Destination) : List Segment :=
  match d.anchor with
  | .root => [[]]
  | .above _ => []

/-- What is written in front of the parts. -/
def lead (d : Destination) : String :=
  match d.anchor with
  | .root => "/"
  | .above _ => ""

/-- The parts between the slashes. -/
def parts (d : Destination) : List String :=
  match d.anchor with
  | .root => d.names
  | .above n => List.replicate n ".." ++ d.names

/-- The segments of the destination, the empty one of the root included. -/
def segments (d : Destination) : List Segment := d.front ++ d.parts.map String.toList

theorem map_text_names (names : List String) :
    (names.map Component.name).map Component.text = names.map String.toList := by
  rw [List.map_map]
  rfl

theorem path_root (names : List String) :
    (⟨.root, names⟩ : Destination).path =
      ⟨String.ofList ('/' :: joinSlash (names.map String.toList))⟩ := by
  rw [← map_text_names]
  rfl

theorem path_above (n : Nat) (names : List String) :
    (⟨.above n, names⟩ : Destination).path =
      ⟨String.ofList (joinSlash (⟨.above n, names⟩ : Destination).segments)⟩ := by
  have htext : (⟨.above n, names⟩ : Destination).components.map Component.text =
      (⟨.above n, names⟩ : Destination).segments := by
    simp [components, segments, front, parts, Component.text]
  rw [← htext]
  cases n with
  | zero => cases names <;> rfl
  | succ n => rfl

/-- The text of a destination. -/
theorem text_path (d : Destination) : d.path.text = d.lead ++ "/".intercalate d.parts := by
  obtain ⟨anchor, names⟩ := d
  apply String.toList_inj.mp
  cases anchor with
  | root =>
    rw [path_root]
    simp [joinSlash_eq_intercalate, String.toList_intercalate, lead, parts]
  | above n =>
    rw [path_above]
    simp [joinSlash_eq_intercalate, String.toList_intercalate, lead, segments, front]

/-- Every part has a meaning and no slash. -/
theorem of_mem_parts (h : d.IsProper) {s : String} (hs : s ∈ d.parts) :
    isVoid s.toList = false ∧ '/' ∉ s.toList := by
  have hname : s ∈ d.names → isVoid s.toList = false ∧ '/' ∉ s.toList :=
    fun hs => ⟨isVoid_eq_false (h s hs), (h s hs).2.2.2⟩
  unfold parts at hs
  split at hs
  · exact hname hs
  · rcases List.mem_append.mp hs with hs | hs
    · rw [List.eq_of_mem_replicate hs]
      decide
    · exact hname hs

theorem not_mem_of_mem_segments (h : d.IsProper) : ∀ s ∈ d.segments, '/' ∉ s := by
  intro s hs
  rcases List.mem_append.mp hs with hs | hs
  · unfold front at hs
    split at hs
    · rw [List.mem_singleton.mp hs]
      exact List.not_mem_nil
    · cases hs
  · obtain ⟨part, hpart, rfl⟩ := List.mem_map.mp hs
    exact (of_mem_parts h hpart).2

/-- A destination is written with its segments; if there are no parts, an empty one follows. -/
theorem segments_path (h : d.IsProper) :
    d.path.segments = d.segments ++ if d.parts = [] then [[]] else [] := by
  have hslash := not_mem_of_mem_segments h
  obtain ⟨anchor, names⟩ := d
  cases anchor with
  | root =>
    by_cases hnames : names = []
    · subst hnames
      rfl
    · have hparts : (⟨.root, names⟩ : Destination).parts ≠ [] := hnames
      have hne : names.map String.toList ≠ [] := by simpa using hnames
      rw [if_neg hparts, List.append_nil, path_root, ← List.nil_append ('/' :: _),
        ← joinSlash_cons_of_ne_nil [] hne]
      exact segments_joinSlash (by simp) hslash
  | above n =>
    by_cases hnil : (⟨.above n, names⟩ : Destination).parts = []
    · rw [if_pos hnil, path_above, segments, hnil]
      rfl
    · have hne : (⟨.above n, names⟩ : Destination).segments ≠ [] := by simpa [segments, front] using hnil
      rw [if_neg hnil, List.append_nil, path_above]
      exact segments_joinSlash hne hslash

/-- Reading what is written, an empty segment at the end changes nothing. -/
theorem foldl_move_segments_path (h : d.IsProper) (e : Destination) :
    d.path.segments.foldl move e = d.segments.foldl move e := by
  rw [segments_path h, List.foldl_append]
  split <;> rfl

theorem filterMap_segments_path (h : d.IsProper) :
    d.path.segments.filterMap Component.ofSegment? = d.segments.filterMap Component.ofSegment? := by
  rw [segments_path h, List.filterMap_append]
  split <;> exact List.append_nil _

/-- What is written without a root begins with a part, unless it is empty. -/
theorem head?_segments_path {n : Nat} {names : List String} (h : ∀ name ∈ names, IsName name)
    {s : Segment} (hs : (⟨.above n, names⟩ : Destination).path.segments.head? = some s) :
    (⟨.above n, names⟩ : Destination).path.segments = [[]] ∨ isVoid s = false := by
  have hsegments := segments_path (d := ⟨.above n, names⟩) h
  cases hparts : (⟨.above n, names⟩ : Destination).parts with
  | nil =>
    left
    rw [hsegments, segments, hparts]
    rfl
  | cons part parts =>
    right
    rw [hsegments, segments, hparts] at hs
    obtain rfl : part.toList = s := by simpa [front] using hs
    have hmem : part ∈ (⟨.above n, names⟩ : Destination).parts := by
      rw [hparts]
      exact List.mem_cons_self ..
    exact (of_mem_parts (d := ⟨.above n, names⟩) h hmem).1

theorem isAbsolute_path_iff (h : d.IsProper) : d.path.isAbsolute = true ↔ d.anchor = .root := by
  obtain ⟨anchor, names⟩ := d
  cases anchor with
  | root => simp [path_root, isAbsolute]
  | above n =>
    simp only [reduceCtorEq, iff_false]
    intro habsolute
    obtain ⟨body, hbody, hsegments⟩ := (isAbsolute_iff_segments _).mp habsolute
    rcases head?_segments_path h (s := []) (by rw [hsegments]; rfl) with hempty | hvoid
    · rw [hempty] at hsegments
      exact hbody (List.cons.inj hsegments).2.symm
    · cases hvoid

theorem filterMap_map_toList {names : List String} (h : ∀ name ∈ names, IsName name) :
    (names.map String.toList).filterMap Component.ofSegment? = names.map .name := by
  induction names with
  | nil => rfl
  | cons name names ih =>
    have hname := ofSegment?_toList (h name (List.mem_cons_self ..))
    rw [List.map_cons, List.filterMap_cons_some hname, ih fun n hn => h n (List.mem_cons_of_mem _ hn)]
    rfl

theorem filterMap_dots (n : Nat) :
    ((List.replicate n "..").map String.toList).filterMap Component.ofSegment? =
      List.replicate n .up := by
  have hup : Component.ofSegment? "..".toList = some .up := rfl
  rw [List.map_replicate]
  induction n with
  | zero => rfl
  | succ n ih => rw [List.replicate_succ, List.filterMap_cons_some hup, ih, List.replicate_succ]

/-- Reading a written destination gives its components. -/
theorem components_path (h : d.IsProper) : d.path.components = d.components := by
  obtain ⟨anchor, names⟩ := d
  have hmeaning := filterMap_segments_path h
  have hnames := filterMap_map_toList h
  have habsolute := isAbsolute_path_iff h
  cases anchor with
  | root =>
    rcases components_cases (⟨.root, names⟩ : Destination).path with ⟨-, hcomponents⟩ | ⟨hrelative, -⟩
    · rw [hcomponents, hmeaning]
      show Component.root :: (names.map String.toList).filterMap Component.ofSegment? = _
      rw [hnames]
      rfl
    · rw [habsolute.mpr rfl] at hrelative
      cases hrelative
  | above n =>
    rcases components_cases (⟨.above n, names⟩ : Destination).path with
      ⟨hroot, -⟩ | ⟨-, ⟨hdot, -⟩ | ⟨-, hcomponents⟩⟩
    · exact absurd (habsolute.mp hroot) nofun
    · rcases head?_segments_path h hdot with hempty | hvoid
      · rw [hempty] at hdot
        cases hdot
      · cases hvoid
    · rw [hcomponents, hmeaning]
      show ((List.replicate n ".." ++ names).map String.toList).filterMap Component.ofSegment? = _
      rw [List.map_append, List.filterMap_append, filterMap_dots, hnames]
      rfl

/-- A written destination leads there. -/
theorem destination_path (h : d.IsProper) : d.path.destination .here = d := by
  obtain ⟨anchor, names⟩ := d
  have habsolute := isAbsolute_path_iff h
  unfold destination
  rw [foldl_move_segments_path h]
  cases anchor with
  | root =>
    rw [if_pos (habsolute.mpr rfl)]
    exact foldl_move_names h ⟨.root, []⟩
  | above n =>
    rw [if_neg fun hroot => nomatch habsolute.mp hroot]
    show ((List.replicate n ".." ++ names).map String.toList).foldl move ⟨.above 0, []⟩ = _
    rw [List.map_append, List.map_replicate, List.foldl_append]
    show (names.map String.toList).foldl move
      ((List.replicate n ['.', '.']).foldl move ⟨.above 0, []⟩) = _
    rw [foldl_move_dots, foldl_move_names h]
    simp

end Destination

theorem destination_normalize (p : Path) : p.normalize.destination .here = p.destination .here := by
  rw [normalize_eq_path_destination, Destination.destination_path (isProper_destination_here p)]

/-! ## One path behind another -/

theorem splitSlash_append_slash (cs ds : List Char) :
    splitSlash (cs ++ '/' :: ds) = splitSlash cs ++ splitSlash ds := by
  induction cs with
  | nil => simp [splitSlash]
  | cons c cs ih =>
    by_cases hc : c = '/'
    · subst hc
      rw [List.cons_append, splitSlash, if_pos rfl, ih, splitSlash, if_pos rfl, List.cons_append]
    · obtain ⟨s, ss, hsplit, hcons⟩ := splitSlash_cons_of_ne hc cs
      obtain ⟨t, ts, hsplit', hcons'⟩ := splitSlash_cons_of_ne hc (cs ++ '/' :: ds)
      rw [ih, hsplit, List.cons_append] at hsplit'
      obtain ⟨rfl, rfl⟩ := List.cons.inj hsplit'
      rw [List.cons_append, hcons', hcons, List.cons_append]

theorem isAbsolute_join {a b : Path} (h : b.isAbsolute = false) :
    (a.join b).isAbsolute = a.isAbsolute := by
  unfold join
  rw [h, if_neg Bool.false_ne_true]
  by_cases hempty : a.text = ""
  · simpa [isAbsolute, hempty] using h
  · split
    · exact isAbsolute_append hempty b.text
    · rw [String.append_assoc]
      exact isAbsolute_append hempty ("/" ++ b.text)

theorem foldl_move_join {a b : Path} (h : b.isAbsolute = false) (d : Destination) :
    (a.join b).segments.foldl Destination.move d =
      b.segments.foldl Destination.move (a.segments.foldl Destination.move d) := by
  unfold join
  rw [h, if_neg Bool.false_ne_true]
  by_cases hempty : a.text = ""
  · have hsegments : a.segments = [[]] := by simp [segments, hempty, splitSlash]
    rw [hsegments]
    simp [hempty, Destination.move, isVoid]
  · by_cases hslash : a.endsInSlash = true
    · obtain ⟨cs, hcs⟩ := List.getLast?_eq_some_iff.mp (of_decide_eq_true hslash)
      have hsegments : a.segments = splitSlash cs ++ [[]] := by
        rw [segments, hcs, splitSlash_append_slash]
        rfl
      have hjoined : segments ⟨a.text ++ b.text⟩ = splitSlash cs ++ b.segments := by
        rw [segments, String.toList_append, hcs, List.append_assoc]
        exact splitSlash_append_slash cs b.text.toList
      simp only [hslash, Bool.or_true, if_true]
      rw [hjoined, hsegments, List.foldl_append, List.foldl_append]
      rfl
    · have hjoined : segments ⟨a.text ++ "/" ++ b.text⟩ = a.segments ++ b.segments := by
        rw [segments, String.toList_append, String.toList_append, List.append_assoc]
        exact splitSlash_append_slash a.text.toList b.text.toList
      simp only [hempty, hslash, decide_false, Bool.or_self, Bool.false_eq_true, if_false]
      rw [hjoined, List.foldl_append]

/-- A path behind another one is followed from where that one leads. -/
theorem destination_join (a b : Path) (start : Destination) :
    (a.join b).destination start = b.destination (a.destination start) := by
  cases h : b.isAbsolute with
  | true =>
    have hjoin : a.join b = b := by simp [join, h]
    rw [hjoin]
    simp [destination, h]
  | false =>
    unfold destination
    rw [isAbsolute_join h, foldl_move_join h, h, if_neg Bool.false_ne_true]

theorem normalize_join (a b : Path) : (a.join b).normalize = (a.normalize.join b).normalize := by
  rw [normalize_eq_path_destination, normalize_eq_path_destination, destination_join, destination_join,
    destination_normalize]

/-! ## Characters -/

theorem mem_intercalate_iff {c : Char} {sep : List Char} (hsep : c ∉ sep) (ss : List (List Char)) :
    c ∈ sep.intercalate ss ↔ ∃ s ∈ ss, c ∈ s := by
  induction ss with
  | nil => simp
  | cons s ss ih =>
    by_cases hnil : ss = []
    · subst hnil
      simp
    · rw [List.intercalate_cons_of_ne_nil hnil, List.mem_append, List.mem_append, ih]
      simp [hsep]

theorem mem_toList_intercalate_iff {c : Char} {sep : String} (hsep : c ∉ sep.toList)
    (ss : List String) : c ∈ (sep.intercalate ss).toList ↔ ∃ s ∈ ss, c ∈ s.toList := by
  rw [String.toList_intercalate, mem_intercalate_iff hsep]
  simp

/-- A parent is written with characters of the path. -/
theorem mem_of_mem_parent? {p q : Path} (h : p.parent? = some q) {c : Char} (hslash : c ≠ '/')
    (hc : c ∈ q.text.toList) : c ∈ p.text.toList := by
  have hq : q ∈ parentsOf p.split.1 p.split.2.reverse := by
    rw [parent?, ancestors_eq, List.tail_cons] at h
    exact List.mem_of_mem_head? h
  rcases eq_of_mem_parentsOf hq with rfl | ⟨kept, hkept, rfl⟩
  · simp at hc
  have hinit : kept.reverse <+: p.split.2 := by
    rwa [← List.reverse_suffix, List.reverse_reverse]
  have hsegment : ∃ s ∈ p.split.1 ++ kept.reverse, c ∈ s := by
    unfold ofSplit at hc
    split at hc
    · simp [hslash] at hc
    · rw [String.toList_ofList, joinSlash_eq_intercalate] at hc
      exact (mem_intercalate_iff (by simpa using hslash) _).mp hc
  obtain ⟨s, hs, hcs⟩ := hsegment
  by_cases hp : p.text = ""
  · rw [split, if_pos hp] at hinit hs
    rw [List.prefix_nil.mp hinit] at hs
    cases hs
  · refine mem_of_mem_splitSlash ?_ hcs
    rw [← segments, ← split_append hp]
    exact ((List.prefix_append_right_inj _).mpr hinit).subset hs

theorem Destination.mem_names_up {d : Destination} {name : String} (h : name ∈ d.up.names) : name ∈ d.names := by
  unfold Destination.up at h
  split at h
  · exact h
  · exact List.dropLast_subset _ h

theorem Destination.mem_names_move {d : Destination} {s : Segment} {name : String} (h : name ∈ (d.move s).names) :
    name ∈ d.names ∨ name.toList = s := by
  unfold Destination.move at h
  split at h
  · exact Or.inl h
  · split at h
    · exact Or.inl (Destination.mem_names_up h)
    · rcases List.mem_append.mp h with h | h
      · exact Or.inl h
      · rw [List.mem_singleton.mp h, String.toList_ofList]
        exact Or.inr rfl

/-- A name of where segments lead was there before, or it is one of the segments. -/
theorem Destination.mem_names_foldl_move {d : Destination} {ss : List Segment} {name : String}
    (h : name ∈ (ss.foldl Destination.move d).names) : name ∈ d.names ∨ name.toList ∈ ss := by
  induction ss generalizing d with
  | nil => exact Or.inl h
  | cons s ss ih =>
    rcases ih h with hname | hname
    · rcases Destination.mem_names_move hname with hname | rfl
      · exact Or.inl hname
      · exact Or.inr (List.mem_cons_self ..)
    · exact Or.inr (List.mem_cons_of_mem _ hname)

/-- What is in a name of where a path leads is in the path or in a name of where it starts. -/
theorem mem_of_mem_names_destination {p : Path} {start : Destination} {name : String}
    (hname : name ∈ (p.destination start).names) {c : Char} (hc : c ∈ name.toList) :
    c ∈ p.text.toList ∨ ∃ n ∈ start.names, c ∈ n.toList := by
  rcases Destination.mem_names_foldl_move hname with hname | hname
  · split at hname
    · cases hname
    · exact Or.inr ⟨name, hname, hc⟩
  · exact Or.inl (mem_of_mem_splitSlash hname hc)

/-- A character other than a slash or a point that is written for a path is in a name of where the path
leads. -/
theorem mem_normalize_iff (p : Path) {c : Char} (hslash : c ≠ '/') (hdot : c ≠ '.') :
    c ∈ p.normalize.text.toList ↔ ∃ name ∈ (p.destination .here).names, c ∈ name.toList := by
  have hlead : c ∉ (p.destination .here).lead.toList := by
    unfold Destination.lead
    split <;> simp [hslash]
  have hmark : c ∉ "/".toList := by simpa using hslash
  have hparts := mem_toList_intercalate_iff hmark (p.destination .here).parts
  rw [normalize_eq_path_destination, Destination.text_path, String.toList_append, List.mem_append,
    or_iff_right hlead, hparts]
  unfold Destination.parts
  split
  · rfl
  · constructor
    · rintro ⟨s, hs, hc⟩
      rcases List.mem_append.mp hs with hs | hs
      · rw [List.eq_of_mem_replicate hs] at hc
        simp [hdot] at hc
      · exact ⟨s, hs, hc⟩
    · rintro ⟨name, hname, hc⟩
      exact ⟨name, List.mem_append_right _ hname, hc⟩

end ModuleBuild.Path
