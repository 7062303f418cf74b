import ModuleBuild.Proofs.FileTree.Directories

/-!
# Reading and writing files

Writing a file sets what is at one place. It takes no directory away, and neither does making one, so a
path that could be followed still leads to where it led. What has been written can therefore be read,
until something else is written at the same place; and a path with something more behind its last name
leads to another place.

Main statements: `writeText_eq_ok_iff`, `readBytes_of_writeText` and `reach_append_ne`.
-/

namespace ModuleBuild.FileTree

variable {t u v : FileTree} {p : Path} {place : Place}

/-! ## Trees that keep their directories -/

/-- Every directory is still one. -/
structure KeepsDirectories (t u : FileTree) : Prop where
  workingDirectory : u.workingDirectory = t.workingDirectory
  node? : ∀ place, t.node? place = some .directory → u.node? place = some .directory

namespace KeepsDirectories

theorem refl (t : FileTree) : KeepsDirectories t t := ⟨rfl, fun _ h => h⟩

theorem trans (h₁ : KeepsDirectories t u) (h₂ : KeepsDirectories u v) : KeepsDirectories t v :=
  ⟨h₂.workingDirectory.trans h₁.workingDirectory, fun place h => h₂.node? place (h₁.node? place h)⟩

theorem of_grown {P : Place → Prop} (h : Grown P t u) : KeepsDirectories t u := by
  refine ⟨h.workingDirectory, fun place hdir => ?_⟩
  rcases h.node? place with heq | ⟨-, -, hmade⟩
  · exact heq.trans hdir
  · exact hmade

/-- What may be set at a place takes no directory away. -/
theorem put {node : Node} (h : t.Admits place node) : KeepsDirectories t (t.put place node) := by
  rw [FileTree.put, dif_pos h]
  exact ⟨rfl, fun _ => nodeIn?_putEntry h.2⟩

theorem walk (h : KeepsDirectories t u) {a b : Place} {ss : List Path.Segment}
    (hwalk : t.walk a ss = .ok b) : u.walk a ss = .ok b := by
  induction ss generalizing a with
  | nil => exact hwalk
  | cons s ss ih =>
    rw [FileTree.walk] at hwalk
    split at hwalk
    · next hdir =>
      rw [FileTree.walk, h.node? a hdir]
      exact ih hwalk
    · cases hwalk
    · cases hwalk

theorem locate (h : KeepsDirectories t u) (hlocate : t.locate p = .ok place) :
    u.locate p = .ok place := by
  rw [FileTree.locate] at hlocate ⊢
  split at hlocate
  · cases hlocate
  · next htext =>
    rw [if_neg htext, origin_congr h.workingDirectory]
    exact h.walk hlocate

end KeepsDirectories

/-- Where directories have been made, there are the same files as before. -/
theorem Grown.node?_eq_file_iff {P : Place → Prop} (h : Grown P t u) (place : Place)
    (content : ByteArray) :
    u.node? place = some (.file content) ↔ t.node? place = some (.file content) := by
  rcases h.node? place with heq | ⟨-, hnone, hmade⟩
  · rw [heq]
  · rw [hnone, hmade]
    simp

/-! ## Where paths lead -/

/-- The place to which a path leads, if it can be followed. -/
def reach (t : FileTree) (p : Path) : Place := p.way.foldl move (t.origin p)

theorem reach_congr (h : u.workingDirectory = t.workingDirectory) (p : Path) : u.reach p = t.reach p := by
  rw [reach, reach, origin_congr h]

theorem locate_eq_ok (h : t.locate p = .ok place) : place = t.reach p := by
  rw [locate] at h
  split at h
  · cases h
  · rw [(walk_eq_ok h).1, waypoints_eq, List.foldl_append, reach]
    split
    · simp [move, Path.isVoid]
    · rfl

theorem target_eq_reach (h : t.target p = .ok (some place)) : place = t.reach p :=
  (walk_eq_ok (target_eq_ok h).2).1

theorem locate_of_target (hslash : p.endsInSlash = false) (h : t.target p = .ok (some place)) :
    t.locate p = .ok place := by
  rw [locate, if_neg (text_ne_of_target h), waypoints_eq, hslash]
  simpa using (target_eq_ok h).2

/-- With something more behind its last name a path leads to another place. -/
theorem reach_append_ne (hslash : p.endsInSlash = false) (h : t.target p = .ok (some place))
    {text : String} (hne : text ≠ "") (htext : '/' ∉ text.toList) :
    t.reach ⟨p.text ++ text⟩ ≠ t.reach p := by
  obtain ⟨ss, s, hs, hway, hlonger⟩ := Path.way_append (text_ne_of_target h) hslash
  obtain ⟨hdot, hdots⟩ := getLast?_way_of_target h (s := s) (by simp [hway])
  obtain ⟨c, cs, hcs⟩ := List.exists_cons_of_ne_nil (l := text.toList) (by simpa using hne)
  have horigin : t.origin ⟨p.text ++ text⟩ = t.origin p := by
    rw [origin, origin, Path.isAbsolute_append (text_ne_of_target h)]
  -- The only name that could become `..` is a single point, which is no name.
  have hup : s ++ c :: cs ≠ ['.', '.'] := by
    intro hcon
    rcases List.append_eq_cons_iff.mp hcon with ⟨hnil, -⟩ | ⟨rest, hrest, hcon⟩
    · exact hs hnil
    · rcases List.append_eq_singleton_iff.mp hcon.symm with ⟨hnil, -⟩ | ⟨-, hnil⟩
      · exact hdot (by rw [hrest, hnil])
      · cases hnil
  rw [reach, reach, horigin, hlonger text htext, hway, hcs]
  simp only [List.foldl_append, List.foldl_cons, List.foldl_nil]
  rw [move_name hs hdot hdots, move_name (by simp) (by simp [hs, List.append_eq_cons_iff]) hup]
  simp

/-! ## Writing and reading -/

/-- A file is written at the place of the last name of the path, where there must be no directory. -/
theorem writeText_eq_ok_iff {text : String} :
    t.writeText p text = .ok u ↔
      p.endsInSlash = false ∧ ∃ place, t.target p = .ok (some place) ∧
        t.node? place ≠ some .directory ∧ u = t.put place (.file text.toUTF8) := by
  rw [writeText]
  cases htarget : t.target p with
  | error e => simp
  | ok place? =>
    cases place? with
    | none => simp
    | some place =>
      by_cases hslash : p.endsInSlash = true
      · simp [hslash]
      · by_cases hdir : t.node? place = some .directory
        · simp [hdir]
        · simpa [hslash, hdir] using eq_comm

theorem keepsDirectories_of_writeText {text : String} (h : t.writeText p text = .ok u) :
    KeepsDirectories t u := by
  obtain ⟨-, place, htarget, hfree, rfl⟩ := writeText_eq_ok_iff.mp h
  exact KeepsDirectories.put (admits_of_target htarget hfree _)

theorem node?_of_writeText {text : String} (h : t.writeText p text = .ok u) :
    u.node? (t.reach p) = some (.file text.toUTF8) ∧
      ∀ other ≠ t.reach p, u.node? other = t.node? other := by
  obtain ⟨-, place, htarget, hfree, rfl⟩ := writeText_eq_ok_iff.mp h
  obtain rfl := target_eq_reach htarget
  have hadmits := admits_of_target htarget hfree (.file text.toUTF8)
  exact ⟨node?_put_self hadmits, fun other ho => node?_put_of_ne ho _⟩

theorem readBytes_eq_ok_iff {content : ByteArray} :
    t.readBytes p = .ok content ↔
      ∃ place, t.locate p = .ok place ∧ t.node? place = some (.file content) := by
  rw [readBytes]
  cases t.locate p with
  | error e => simp
  | ok place =>
    simp only [Except.ok.injEq, exists_eq_left']
    split <;> simp_all

theorem fromUTF8?_eq_some_iff {content : ByteArray} {text : String} :
    String.fromUTF8? content = some text ↔ content = text.toUTF8 := by
  rw [String.fromUTF8?]
  split
  · constructor
    · intro h
      cases h
      rfl
    · rintro rfl
      rfl
  · next hinvalid =>
    simp only [reduceCtorEq, false_iff]
    rintro rfl
    exact hinvalid text.isValidUTF8

/-- The text of a file is the one that its bytes encode. -/
theorem readText_eq_ok_iff {text : String} :
    t.readText p = .ok text ↔ t.readBytes p = .ok text.toUTF8 := by
  rw [readText]
  cases t.readBytes p with
  | error e => simp
  | ok content =>
    rw [Except.ok.injEq, ← fromUTF8?_eq_some_iff]
    simp only
    split <;> simp_all

/-- What has been written can be read. -/
theorem readBytes_of_writeText {text : String} (h : t.writeText p text = .ok u) :
    u.readBytes p = .ok text.toUTF8 := by
  have hkeeps := keepsDirectories_of_writeText h
  have hnode := (node?_of_writeText h).1
  obtain ⟨hslash, place, htarget, -⟩ := writeText_eq_ok_iff.mp h
  obtain rfl := target_eq_reach htarget
  exact readBytes_eq_ok_iff.mpr ⟨_, hkeeps.locate (locate_of_target hslash htarget), hnode⟩

end ModuleBuild.FileTree
