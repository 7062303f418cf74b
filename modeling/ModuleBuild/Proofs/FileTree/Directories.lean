import ModuleBuild.FileTree
import ModuleBuild.Proofs.Path.Segments

/-!
# Making directories

Making a directory with its parents tries the path itself first, then its parents upwards, and comes
back. Whatever happens on the way, all that changes is that places on the path at which there was
nothing become directories; `Grown` says this for any set of places. If nothing fails, every place on
the path is a directory in the end.

Main statements: `grown_makeDirectories`, which also holds when making the directories fails, and
`node?_makeDirectories`.
-/

namespace ModuleBuild.FileTree

/-! ## Growing trees -/

/-- Some places of `P` at which there was nothing are directories now; nothing else has changed. -/
structure Grown (P : Place → Prop) (t u : FileTree) : Prop where
  workingDirectory : u.workingDirectory = t.workingDirectory
  node? : ∀ place, u.node? place = t.node? place ∨
    P place ∧ t.node? place = none ∧ u.node? place = some .directory

variable {P : Place → Prop} {t u v : FileTree}

theorem Grown.refl (P : Place → Prop) (t : FileTree) : Grown P t t := ⟨rfl, fun _ => Or.inl rfl⟩

theorem Grown.trans (h₁ : Grown P t u) (h₂ : Grown P u v) : Grown P t v := by
  refine ⟨h₂.workingDirectory.trans h₁.workingDirectory, fun place => ?_⟩
  rcases h₁.node? place with heq | ⟨hP, hnone, hmade⟩
  · rw [← heq]
    exact h₂.node? place
  · rcases h₂.node? place with heq | ⟨-, hcon, -⟩
    · exact Or.inr ⟨hP, hnone, heq.trans hmade⟩
    · rw [hmade] at hcon
      cases hcon

theorem Grown.put {place : Place} (hP : P place) (h : t.node? place = none)
    (hadmits : t.Admits place .directory) : Grown P t (t.put place .directory) := by
  refine ⟨workingDirectory_put .., fun other => ?_⟩
  by_cases ho : other = place
  · subst ho
    exact Or.inr ⟨hP, h, node?_put_self hadmits⟩
  · exact Or.inl (node?_put_of_ne ho _)

/-! ## Walking -/

/-- A walk ends where its segments lead, and every place on it but the last is a directory. -/
theorem walk_eq_ok {a b : Place} {ss : List Path.Segment} (h : t.walk a ss = .ok b) :
    b = ss.foldl move a ∧ ∀ x ∈ stops a ss, x = b ∨ t.node? x = some .directory := by
  induction ss generalizing a with
  | nil =>
    rw [walk, Except.ok.injEq] at h
    exact ⟨h.symm, by simp [stops]⟩
  | cons s ss ih =>
    have hrest : t.walk (move a s) ss = .ok b := by
      rw [walk] at h
      split at h
      · exact h
      · cases h
      · cases h
    obtain ⟨hb, hstops⟩ := ih hrest
    refine ⟨hb, fun x hx => ?_⟩
    rcases List.mem_cons.mp hx with rfl | hx
    · cases ss with
      | nil => exact Or.inl hb.symm
      | cons s' ss =>
        rw [walk] at hrest
        split at hrest
        · next hdir => exact Or.inr hdir
        · cases hrest
        · cases hrest
    · exact hstops x hx

theorem walk_append {a c : Place} {ss ts : List Path.Segment} :
    t.walk a (ss ++ ts) = .ok c ↔ ∃ b, t.walk a ss = .ok b ∧ t.walk b ts = .ok c := by
  induction ss generalizing a with
  | nil => simp [walk]
  | cons s ss ih =>
    rw [List.cons_append, walk, walk]
    cases t.node? a with
    | none => simp
    | some node =>
      cases node with
      | file content => simp
      | directory => exact ih

/-- The last segment of a walk starts at a directory. -/
theorem walk_concat {a c : Place} {ss : List Path.Segment} {s : Path.Segment} :
    t.walk a (ss ++ [s]) = .ok c ↔
      ∃ b, t.walk a ss = .ok b ∧ t.node? b = some .directory ∧ c = move b s := by
  rw [walk_append]
  refine exists_congr fun b => and_congr_right fun _ => ?_
  simp only [walk]
  split
  · next hdir => simp [hdir, eq_comm]
  · next hfile => simp [hfile]
  · next hnone => simp [hnone]

theorem foldl_move_mem_stops {a : Place} {ws vs : List Path.Segment} (h : ws <+: vs)
    (hne : ws ≠ []) : ws.foldl move a ∈ stops a vs := by
  induction ws generalizing a vs with
  | nil => exact absurd rfl hne
  | cons w ws ih =>
    obtain ⟨rest, rfl⟩ := h
    rw [List.cons_append, stops]
    by_cases hws : ws = []
    · subst hws
      exact List.mem_cons_self ..
    · exact List.mem_cons_of_mem _ (ih (List.prefix_append ws rest) hws)

theorem stops_append (a : Place) (ss ts : List Path.Segment) :
    stops a (ss ++ ts) = stops a ss ++ stops (ss.foldl move a) ts := by
  induction ss generalizing a with
  | nil => rfl
  | cons s ss ih =>
    rw [List.cons_append, stops, stops, ih]
    rfl

theorem waypoints_eq (p : Path) :
    waypoints p = p.way ++ if p.endsInSlash then [['.']] else [] := rfl

theorem placesOn_congr (h : u.workingDirectory = t.workingDirectory) (p : Path) :
    u.placesOn p = t.placesOn p := by
  rw [placesOn, placesOn, origin, origin, h]

theorem origin_congr (h : u.workingDirectory = t.workingDirectory) (p : Path) :
    u.origin p = t.origin p := by
  rw [origin, origin, h]

/-! ## Targets -/

variable {p : Path} {place : Place}

/-- The target of a path is where its way leads. -/
theorem target_eq_ok (h : t.target p = .ok (some place)) :
    p.way ≠ [] ∧ t.walk (t.origin p) p.way = .ok place := by
  rw [target] at h
  split at h
  · cases h
  · split at h
    · cases h
    · next last hlast =>
      have hne : p.way ≠ [] := by
        intro hnil
        rw [Path.way] at hnil
        rw [hnil] at hlast
        cases hlast
      split at h
      · cases h
      · next place' hwalk =>
        refine ⟨hne, ?_⟩
        by_cases hdots : last = ['.'] ∨ last = ['.', '.']
        · simp [hdots] at h
        · simp only [hdots, if_false, Except.ok.injEq, Option.some.injEq] at h
          rw [← h]
          exact hwalk

theorem text_ne_of_target (h : t.target p = .ok (some place)) : p.text ≠ "" := by
  intro hempty
  rw [target, if_pos hempty] at h
  cases h

/-- A target is a name. -/
theorem getLast?_way_of_target (h : t.target p = .ok (some place)) {s : Path.Segment}
    (hlast : p.way.getLast? = some s) : s ≠ ['.'] ∧ s ≠ ['.', '.'] := by
  rw [Path.way] at hlast
  rw [target, if_neg (text_ne_of_target h)] at h
  simp only [hlast] at h
  split at h
  · cases h
  · by_cases hdots : s = ['.'] ∨ s = ['.', '.']
    · simp [hdots] at h
    · exact not_or.mp hdots

theorem move_name {s : Path.Segment} (hs : s ≠ []) (hdot : s ≠ ['.']) (hdots : s ≠ ['.', '.'])
    (place : Place) : move place s = place ++ [String.ofList s] := by
  simp [move, Path.isVoid, hs, hdot, hdots]

/-- A target lies in a directory, so whatever is not a directory there can be replaced. -/
theorem admits_of_target (h : t.target p = .ok (some place)) (hfree : t.node? place ≠ some .directory)
    (node : Node) : t.Admits place node := by
  refine ⟨?_, fun hdir => absurd hdir hfree⟩
  obtain ⟨hne, hwalk⟩ := target_eq_ok h
  obtain ⟨ss, s, hway⟩ := (List.eq_nil_or_concat' p.way).resolve_left hne
  obtain ⟨hdot, hdots⟩ := getLast?_way_of_target h (s := s) (by simp [hway])
  have hs : s ≠ [] := by
    have hmem : s ∈ p.way := by simp [hway]
    simpa using (List.mem_filter.mp hmem).2
  rw [hway] at hwalk
  obtain ⟨b, -, hdir, rfl⟩ := walk_concat.mp hwalk
  rwa [move_name hs hdot hdots, List.dropLast_concat]

/-! ## Single directories -/

/-- A directory is made at the place of the last name of the path, where there must be nothing. -/
theorem makeDirectory_eq_ok (h : t.makeDirectory p = .ok u) :
    ∃ place, t.target p = .ok (some place) ∧ t.node? place = none ∧
      t.Admits place .directory ∧ u = t.put place .directory := by
  rw [makeDirectory] at h
  split at h
  · cases h
  · cases h
  · next place htarget =>
    cases hnode : t.node? place with
    | some node => simp [hnode] at h
    | none =>
      refine ⟨place, htarget, hnode, admits_of_target htarget (by simp [hnode]) _, ?_⟩
      simpa [hnode, eq_comm] using h

theorem ensureDirectory_eq_ok (h : t.ensureDirectory p = .ok u) :
    t.makeDirectory p = .ok u ∨ u = t ∧ t.isDirectory p = true := by
  rw [ensureDirectory] at h
  split at h
  · next hmake => exact Or.inl (by rw [hmake, h])
  · split at h
    · next hdir =>
      rw [Bool.and_eq_true] at hdir
      exact Or.inr ⟨(Except.ok.inj h).symm, hdir.2⟩
    · cases h

/-- A path to a directory passes only directories. -/
theorem node?_of_isDirectory (h : t.isDirectory p = true) :
    ∀ place ∈ t.placesOn p, t.node? place = some .directory := by
  intro place hplace
  rw [isDirectory] at h
  split at h
  · next b hlocate =>
    have hb : t.node? b = some .directory := of_decide_eq_true h
    rw [locate] at hlocate
    split at hlocate
    · cases hlocate
    · rcases (walk_eq_ok hlocate).2 place hplace with rfl | hdir
      · exact hb
      · exact hdir
  · cases h

/-- When a directory has been made, the path to it passes only directories. -/
theorem node?_of_makeDirectory (h : t.makeDirectory p = .ok u) :
    ∀ place ∈ t.placesOn p, u.node? place = some .directory := by
  obtain ⟨target, htarget, -, hadmits, rfl⟩ := makeDirectory_eq_ok h
  obtain ⟨-, hwalk⟩ := target_eq_ok htarget
  obtain ⟨hend, hstops⟩ := walk_eq_ok hwalk
  have hmade : (t.put target .directory).node? target = some .directory := node?_put_self hadmits
  have hway : ∀ x ∈ stops (t.origin p) p.way,
      (t.put target .directory).node? x = some .directory := by
    intro x hx
    by_cases hxt : x = target
    · rw [hxt]
      exact hmade
    · rw [node?_put_of_ne hxt]
      exact (hstops x hx).resolve_left hxt
  intro place hplace
  rw [placesOn, waypoints_eq, stops_append, ← hend] at hplace
  rcases List.mem_append.mp hplace with hplace | hplace
  · exact hway place hplace
  · -- A slash at the end of the path stands for a `.` behind it.
    split at hplace
    · obtain rfl : place = target := by simpa [stops, move, Path.isVoid] using hplace
      exact hmade
    · cases hplace

theorem node?_of_ensureDirectory (h : t.ensureDirectory p = .ok u) :
    ∀ place ∈ t.placesOn p, u.node? place = some .directory := by
  rcases ensureDirectory_eq_ok h with hmake | ⟨rfl, hdir⟩
  · exact node?_of_makeDirectory hmake
  · exact node?_of_isDirectory hdir

theorem grown_of_ensureDirectory (h : t.ensureDirectory p = .ok u)
    (hP : p.way ≠ [] → P (p.way.foldl move (t.origin p))) : Grown P t u := by
  rcases ensureDirectory_eq_ok h with hmake | ⟨rfl, -⟩
  · obtain ⟨place, htarget, hnone, hadmits, rfl⟩ := makeDirectory_eq_ok hmake
    obtain ⟨hne, hwalk⟩ := target_eq_ok htarget
    refine Grown.put ?_ hnone hadmits
    rw [(walk_eq_ok hwalk).1]
    exact hP hne
  · exact Grown.refl P _

/-! ## Directories with their parents -/

/-- Making directories upwards makes nothing but places to which the paths lead. -/
theorem grown_makeDirectoriesUp {qs : List Path}
    (hP : ∀ q ∈ qs, q.text ≠ "" → q.way ≠ [] → P (q.way.foldl move (t.origin q))) :
    Grown P t (t.makeDirectoriesUp qs).1 := by
  induction qs generalizing t with
  | nil => exact Grown.refl P t
  | cons q qs ih =>
    rw [makeDirectoriesUp]
    by_cases hempty : q.text = ""
    · rw [if_pos hempty]
      exact Grown.refl P t
    · rw [if_neg hempty]
      have hq : q.way ≠ [] → P (q.way.foldl move (t.origin q)) :=
        hP q (List.mem_cons_self ..) hempty
      split
      · next u hensure => exact grown_of_ensureDirectory hensure hq
      · have hparents := ih fun q' hq' => hP q' (List.mem_cons_of_mem _ hq')
        split
        · next u e hup =>
          rw [hup] at hparents
          exact hparents
        · next u hup =>
          rw [hup] at hparents
          split
          · next v hensure =>
            refine hparents.trans (grown_of_ensureDirectory hensure fun hne => ?_)
            rw [origin_congr hparents.workingDirectory]
            exact hq hne
          · exact hparents
      · exact Grown.refl P t

/-- Making directories, even in vain, makes nothing but places on the path. -/
theorem grown_makeDirectories (t : FileTree) (p : Path) :
    Grown (· ∈ t.placesOn p) t (t.makeDirectories p).1 := by
  refine grown_makeDirectoriesUp fun q hq htext hne => ?_
  obtain ⟨habsolute, hway⟩ := Path.way_of_mem_ancestors hq htext
  have horigin : t.origin q = t.origin p := by rw [origin, origin, habsolute]
  rw [horigin, placesOn, waypoints_eq]
  exact foldl_move_mem_stops (hway.trans (List.prefix_append ..)) hne

/-- When a directory and its parents have been made, the path to it passes only directories. -/
theorem node?_makeDirectories (h : (t.makeDirectories p).2 = none) :
    ∀ place ∈ t.placesOn p, (t.makeDirectories p).1.node? place = some .directory := by
  rw [makeDirectories, Path.ancestors_eq, makeDirectoriesUp] at h ⊢
  by_cases hempty : p.text = ""
  · have hplaces : t.placesOn p = [] := by
      simp [placesOn, waypoints, Path.segments, Path.endsInSlash, hempty, Path.splitSlash, stops]
    rw [hplaces]
    simp
  · rw [if_neg hempty] at h ⊢
    split
    · next u hensure => exact node?_of_ensureDirectory hensure
    · next hensure =>
      simp only [hensure] at h
      have hparents : Grown (fun _ => True) t
          (t.makeDirectoriesUp (Path.parentsOf p.split.1 p.split.2.reverse)).1 :=
        grown_makeDirectoriesUp fun _ _ _ _ => trivial
      split
      · next u e hup => simp [hup] at h
      · next u hup =>
        simp only [hup] at h hparents
        split
        · next v hensure' =>
          rw [← placesOn_congr hparents.workingDirectory]
          exact node?_of_ensureDirectory hensure'
        · next e hensure' => simp [hensure'] at h
    · next e _ hensure => simp [hensure] at h

end ModuleBuild.FileTree
