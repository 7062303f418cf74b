import ModuleBuild.Manifest
import ModuleBuild.Proofs.Path.Destinations
import Mathlib.Data.List.Forall2

/-!
# Resolving paths

Resolving may also work on written paths: it goes over the components and adds each to the path that
was written so far, which it reads again to see what the component does to it. That path is always a
written destination, so both ways to resolve agree.

The imports of a manifest are resolved against the directory of the output.

Main statements: `normalize_eq_foldl_extend`; and `resolve_canonical`, by which resolved paths have one
written form for each destination.
-/

namespace ModuleBuild.Path

/-! ## Resolving written paths -/

/-- Adds a component to a path that has none but leading `..`. What `..` does depends on the last
component. -/
def extend (p : Path) : Component → Path
  | .here => p
  | .root => p.join ⟨"/"⟩
  | .name s => p.join ⟨s⟩
  | .up =>
    match p.components.getLast? with
    | some (.name _) => p.parent?.getD p
    | some .root => p
    | _ => p.join ⟨".."⟩

namespace Destination

variable {d : Destination}

/-- What is written ends in a part, if there is one. -/
theorem getLast?_segments_path (h : d.IsProper) (hparts : d.parts ≠ []) :
    d.path.segments.getLast? ≠ some [] := by
  obtain ⟨init, part, heq⟩ := List.eq_nil_or_concat d.parts |>.resolve_left hparts
  have hvoid := (of_mem_parts h (s := part) (by simp [heq])).1
  rw [segments_path h, if_neg hparts, List.append_nil, segments, heq]
  intro hlast
  rw [List.concat_eq_append, List.map_append, List.map_singleton, ← List.append_assoc,
    List.getLast?_concat, Option.some.injEq] at hlast
  rw [hlast] at hvoid
  cases hvoid

theorem text_path_ne (h : d.IsProper) (hparts : d.parts ≠ []) : d.path.text ≠ "" := by
  intro hempty
  have hlast := getLast?_segments_path h hparts
  simp [Path.segments, hempty, splitSlash] at hlast

theorem endsInSlash_path (h : d.IsProper) (hparts : d.parts ≠ []) : d.path.endsInSlash = false := by
  rw [← Bool.not_eq_true]
  intro hslash
  obtain ⟨cs, hcs⟩ := List.getLast?_eq_some_iff.mp (of_decide_eq_true hslash)
  apply getLast?_segments_path h hparts
  rw [Path.segments, hcs, splitSlash_append_slash]
  exact List.getLast?_concat ..

/-- Writing one more part behind a destination. -/
theorem join_path (h : d.IsProper) {e : Destination} {part : String} (hslash : '/' ∉ part.toList)
    (hlead : e.lead = d.lead) (hparts : e.parts = d.parts ++ [part]) :
    d.path.join ⟨part⟩ = e.path := by
  have hrelative : isAbsolute ⟨part⟩ = false := by
    rw [← Bool.not_eq_true]
    intro habsolute
    exact hslash (List.mem_of_mem_head? (of_decide_eq_true habsolute))
  have htext : e.path = ⟨d.lead ++ "/".intercalate (d.parts ++ [part])⟩ := by
    rw [← hlead, ← hparts, ← text_path]
  rw [htext, join, hrelative, if_neg Bool.false_ne_true]
  by_cases hnil : d.parts = []
  · have hlast : d.path.text = "" ∨ d.path.endsInSlash = true := by
      have hd : d.path.text = d.lead := by rw [text_path, hnil, String.intercalate_nil, String.append_empty]
      unfold endsInSlash
      rw [hd]
      unfold lead
      split
      · exact Or.inr rfl
      · exact Or.inl rfl
    rw [if_pos (by simpa using hlast), text_path, hnil]
    simp [String.intercalate_nil, String.intercalate_singleton]
  · rw [if_neg (by simp [text_path_ne h hnil, endsInSlash_path h hnil]), text_path,
      String.intercalate_append_of_ne_nil hnil (by simp), String.intercalate_singleton]
    simp [String.append_assoc]

theorem parts_concat (anchor : Anchor) (names : List String) (name : String) :
    (⟨anchor, names ++ [name]⟩ : Destination).parts = (⟨anchor, names⟩ : Destination).parts ++ [name] := by
  cases anchor with
  | root => rfl
  | above n => exact (List.append_assoc ..).symm

theorem extend_name (h : d.IsProper) {name : String} (hname : IsName name) :
    d.path.extend (.name name) = (⟨d.anchor, d.names ++ [name]⟩ : Destination).path := by
  exact join_path h hname.2.2.2 rfl (parts_concat ..)

/-! ## Parents of written paths -/

theorem split_path (h : d.IsProper) (hparts : d.parts ≠ []) :
    d.path.split = (d.front, d.parts.map String.toList) := by
  have hsegments : d.path.segments = d.segments := by
    rw [segments_path h, if_neg hparts, List.append_nil]
  obtain ⟨anchor, names⟩ := d
  cases anchor with
  | root =>
    rw [split, if_neg (text_path_ne h hparts), hsegments]
    rfl
  | above n =>
    obtain ⟨part, rest, hcons⟩ := List.exists_cons_of_ne_nil hparts
    have hvoid := (of_mem_parts h (s := part) (by simp [hcons])).1
    rw [segments, hcons] at hsegments
    rw [split_of_isVoid_eq_false hsegments hvoid, hcons]
    rfl

theorem parentsOf_cons (front : List Segment) {s : Segment} (hs : isVoid s = false)
    (before : List Segment) :
    parentsOf front (s :: before) =
      ofSplit front (before.dropWhile isVoid).reverse :: parentsOf front (before.dropWhile isVoid) := by
  have hdrop : (s :: before).dropWhile isVoid = s :: before := by simp [hs]
  rw [parentsOf]
  split
  · next hnil =>
    rw [hdrop] at hnil
    cases hnil
  · next hcons =>
    rw [hdrop] at hcons
    obtain ⟨rfl, rfl⟩ := List.cons.inj hcons
    rfl

theorem ofSplit_front (d : Destination) : ofSplit d.front (d.parts.map String.toList) = d.path := by
  obtain ⟨anchor, names⟩ := d
  cases anchor with
  | root =>
    by_cases hnames : names = []
    · subst hnames
      rfl
    · have hne : names.map String.toList ≠ [] := by simpa using hnames
      show ofSplit [[]] (names.map String.toList) = _
      rw [path_root, ofSplit, if_neg (by simp [hne]), List.singleton_append,
        joinSlash_cons_of_ne_nil [] hne]
      rfl
  | above n =>
    rw [path_above]
    rfl

/-- What is written without the last name is the parent of what is written with it. -/
theorem parent?_path {anchor : Anchor} {names : List String} {name : String}
    (h : (⟨anchor, names ++ [name]⟩ : Destination).IsProper) :
    (⟨anchor, names ++ [name]⟩ : Destination).path.parent? = some (⟨anchor, names⟩ : Destination).path := by
  have hbefore : (⟨anchor, names⟩ : Destination).IsProper := fun n hn => h n (by simp [hn])
  have hparts := parts_concat anchor names name
  have hname : isVoid name.toList = false := isVoid_eq_false (h name (by simp))
  have hdrop : ((⟨anchor, names⟩ : Destination).parts.map String.toList).reverse.dropWhile isVoid =
      ((⟨anchor, names⟩ : Destination).parts.map String.toList).reverse := by
    cases hrev : ((⟨anchor, names⟩ : Destination).parts.map String.toList).reverse with
    | nil => rfl
    | cons s ss =>
      have hs : s ∈ (⟨anchor, names⟩ : Destination).parts.map String.toList := by
        rw [← List.mem_reverse, hrev]
        exact List.mem_cons_self ..
      obtain ⟨part, hpart, rfl⟩ := List.mem_map.mp hs
      simp [(of_mem_parts hbefore hpart).1]
  rw [parent?, ancestors_eq, List.tail_cons, split_path h (by simp [hparts]), hparts, List.map_append,
    List.map_singleton, List.reverse_concat, parentsOf_cons _ hname, hdrop, List.reverse_reverse]
  exact congrArg some (ofSplit_front ⟨anchor, names⟩)

theorem extend_up (h : d.IsProper) : d.path.extend .up = d.up.path := by
  unfold extend
  rw [components_path h]
  obtain ⟨anchor, names⟩ := d
  rcases List.eq_nil_or_concat names with rfl | ⟨init, name, rfl⟩
  · cases anchor with
    | root => rfl
    | above n =>
      have hlast : (⟨.above n, []⟩ : Destination).components.getLast? = none ∨
          (⟨.above n, []⟩ : Destination).components.getLast? = some .up := by
        cases n with
        | zero => exact Or.inl rfl
        | succ n =>
          right
          simp [components, List.getLast?_replicate]
      have hjoin : (⟨.above n, []⟩ : Destination).path.join ⟨".."⟩ =
          (⟨.above (n + 1), []⟩ : Destination).path := by
        refine join_path h (by decide) rfl ?_
        simp [parts, List.replicate_succ']
      rcases hlast with hlast | hlast <;> rw [hlast] <;> exact hjoin
  · rw [List.concat_eq_append] at h ⊢
    have hlast : (⟨anchor, init ++ [name]⟩ : Destination).components.getLast? = some (.name name) := by
      simp [components]
    rw [hlast, up_concat]
    show (⟨anchor, init ++ [name]⟩ : Destination).path.parent?.getD _ = _
    rw [parent?_path h]
    rfl

end Destination

/-- Resolving a path can be done on written paths, one component after the other. -/
theorem normalize_eq_foldl_extend (p : Path) : p.normalize = p.components.foldl extend ⟨""⟩ := by
  have hfold := foldl_components (f := extend) (g := Destination.path) rfl rfl
    (fun d h => Destination.extend_up h) (fun d name h hname => Destination.extend_name h hname) p
  rw [normalize_eq_path_destination]
  exact hfold.symm

/-! ## Resolved paths -/

/-- The path has no `.` and no needless slash, and `..` only in front of its names and if it is
relative. -/
def IsResolved (p : Path) : Prop :=
  ∃ (n : Nat) (names : List String), (∀ name ∈ names, IsName name) ∧ (p.isAbsolute = true → n = 0) ∧
    p.components =
      (if p.isAbsolute then [.root] else []) ++ List.replicate n .up ++ names.map .name ∧
    p.text = (if p.isAbsolute then "/" else "") ++ "/".intercalate (List.replicate n ".." ++ names)

theorem Destination.isResolved_path {d : Destination} (h : d.IsProper) : d.path.IsResolved := by
  obtain ⟨anchor, names⟩ := d
  have habsolute := Destination.isAbsolute_path_iff h
  have hcomponents := Destination.components_path h
  have htext := Destination.text_path ⟨anchor, names⟩
  cases anchor with
  | root =>
    have hroot : (⟨.root, names⟩ : Destination).path.isAbsolute = true := habsolute.mpr rfl
    refine ⟨0, names, h, fun _ => rfl, ?_, ?_⟩
    · rw [hcomponents, hroot]
      rfl
    · rw [htext, hroot]
      rfl
  | above n =>
    have hrelative : (⟨.above n, names⟩ : Destination).path.isAbsolute = false := by
      rw [← Bool.not_eq_true, habsolute]
      exact nofun
    refine ⟨n, names, h, fun hroot => ?_, ?_, ?_⟩
    · rw [hrelative] at hroot
      cases hroot
    · rw [hcomponents, hrelative]
      rfl
    · rw [htext, hrelative]
      rfl

theorem isResolved_normalize (p : Path) : p.normalize.IsResolved := by
  rw [normalize_eq_path_destination]
  exact Destination.isResolved_path (isProper_destination_here p)

/-! Whether a destination starts at the root is decided at the front of a path. -/

theorem Destination.anchor_up_iff (d : Destination) : d.up.anchor = .root ↔ d.anchor = .root := by
  unfold Destination.up
  split <;> simp

theorem Destination.anchor_move_iff (d : Destination) (s : Segment) :
    (d.move s).anchor = .root ↔ d.anchor = .root := by
  unfold Destination.move
  split
  · rfl
  · split
    · exact d.anchor_up_iff
    · rfl

theorem Destination.anchor_foldl_move_iff (d : Destination) (ss : List Segment) :
    (ss.foldl Destination.move d).anchor = .root ↔ d.anchor = .root := by
  induction ss generalizing d with
  | nil => rfl
  | cons s ss ih => rw [List.foldl_cons, ih, d.anchor_move_iff]

theorem isAbsolute_normalize (p : Path) : p.normalize.isAbsolute = p.isAbsolute := by
  rw [Bool.eq_iff_iff, normalize_eq_path_destination,
    Destination.isAbsolute_path_iff (isProper_destination_here p), destination,
    Destination.anchor_foldl_move_iff]
  cases p.isAbsolute <;> simp [Destination.here]

theorem isAbsolute_join_of_isAbsolute {a : Path} (h : a.isAbsolute = true) (b : Path) :
    (a.join b).isAbsolute = true := by
  cases hb : b.isAbsolute with
  | true => simp [join, hb]
  | false => rw [isAbsolute_join hb, h]

theorem IsResolved.eq_root_or_name {p : Path} (h : p.IsResolved) (habsolute : p.isAbsolute = true)
    {c : Component} (hc : c ∈ p.components) : c = .root ∨ ∃ name, c = .name name := by
  obtain ⟨n, names, -, hn, hcomponents, -⟩ := h
  rw [hcomponents, habsolute, hn habsolute] at hc
  simp only [if_true, List.replicate_zero, List.append_nil, List.singleton_append, List.mem_cons,
    List.mem_map] at hc
  rcases hc with rfl | ⟨name, -, rfl⟩
  · exact Or.inl rfl
  · exact Or.inr ⟨name, rfl⟩

/-- What is written for two paths is the same exactly if they lead to the same destination. -/
theorem normalize_eq_iff (p q : Path) :
    p.normalize = q.normalize ↔ p.destination .here = q.destination .here := by
  constructor
  · intro h
    rw [← destination_normalize p, ← destination_normalize q, h]
  · intro h
    rw [normalize_eq_path_destination, normalize_eq_path_destination, h]

/-- Resolving leaves no `.`, and `..` only at the front of a relative path; resolving again changes
nothing; and a path may be resolved before another is joined to it. So the imports of a manifest resolve,
one by one and in order, to absolute paths without dots, and two of them resolve to the same text exactly
if they lead from the directory of the output to the same destination. -/
theorem resolve_canonical :
    (∀ a : Path, a.normalize.IsResolved ∧ a.normalize.isAbsolute = a.isAbsolute ∧
      a.normalize.normalize = a.normalize) ∧
    (∀ a b : Path, (a.join b).normalize = (a.normalize.join b).normalize) ∧
    ∀ base output imports, isAbsolute base = true →
      let dir := base.join (output.parent?.getD ⟨""⟩)
      List.Forall₂ (fun i r => r = (dir.join ⟨i⟩).normalize ∧ r.isAbsolute = true ∧ r.IsResolved ∧
          ∀ c ∈ r.components, c ≠ .here ∧ c ≠ .up)
        imports (Manifest.resolve base output imports) ∧
      ∀ i j : String, (dir.join ⟨i⟩).normalize.text = (dir.join ⟨j⟩).normalize.text ↔
        destination ⟨i⟩ (dir.destination .here) = destination ⟨j⟩ (dir.destination .here) := by
  refine ⟨fun a => ⟨isResolved_normalize a, isAbsolute_normalize a, ?_⟩, normalize_join, ?_⟩
  · rw [normalize_eq_path_destination, destination_normalize, ← normalize_eq_path_destination]
  intro base output imports hbase dir
  have hdir : dir.isAbsolute = true := isAbsolute_join_of_isAbsolute hbase _
  constructor
  · rw [Manifest.resolve, List.forall₂_map_right_iff, List.forall₂_same]
    intro i _
    have habsolute : (dir.join ⟨i⟩).normalize.isAbsolute = true := by
      rw [isAbsolute_normalize, isAbsolute_join_of_isAbsolute hdir]
    refine ⟨rfl, habsolute, isResolved_normalize _, fun c hc => ?_⟩
    rcases (isResolved_normalize (dir.join ⟨i⟩)).eq_root_or_name habsolute hc with rfl | ⟨name, rfl⟩
    · exact ⟨nofun, nofun⟩
    · exact ⟨nofun, nofun⟩
  · intro i j
    have htext : (dir.join ⟨i⟩).normalize.text = (dir.join ⟨j⟩).normalize.text ↔
        (dir.join ⟨i⟩).normalize = (dir.join ⟨j⟩).normalize :=
      ⟨fun h => congrArg Path.mk h, congrArg Path.text⟩
    rw [htext, normalize_eq_iff, destination_join dir, destination_join dir]

/-- From `build/out` the specifiers `./x/../a.js` and `../out/a.js` lead to the same file. -/
theorem resolve_canonical_of_two_ways :
    isAbsolute ⟨"/work"⟩ = true ∧
      (Path.join ⟨"/work/build/out"⟩ ⟨"./x/../a.js"⟩).normalize.text =
        (Path.join ⟨"/work/build/out"⟩ ⟨"../out//a.js"⟩).normalize.text := by
  have habsolute : isAbsolute ⟨"/work"⟩ = true := by decide
  have hsame := (resolve_canonical.2.2 ⟨"/work"⟩ ⟨"build/out/main.js"⟩
    ["./x/../a.js", "../out//a.js"] habsolute).2
    "./x/../a.js" "../out//a.js"
  have hdir : Path.join ⟨"/work"⟩ ((Path.parent? ⟨"build/out/main.js"⟩).getD ⟨""⟩) =
      ⟨"/work/build/out"⟩ := by decide +kernel
  rw [hdir] at hsame
  exact ⟨habsolute, hsame.mpr (by decide +kernel)⟩

end ModuleBuild.Path
