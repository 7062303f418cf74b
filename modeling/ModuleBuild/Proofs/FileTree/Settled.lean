import ModuleBuild.Proofs.FileTree.Files

/-!
# Changes that are done already

Setting what is at a place to what is there changes nothing, not even the order in which the places are
listed. So making directories that are there and writing a text that is there leave the tree exactly as
it is, and they do so as long as no directory is taken away and nothing else is written there.

Main statements: `makeDirectories_again` and `writeText_again`.
-/

namespace ModuleBuild.FileTree

variable {t u v : FileTree} {p : Path} {place : Place}

/-! ## Places -/

theorem putEntry_of_lookup {node : Node} {entries : List (Place × Node)}
    (h : entries.lookup place = some node) : putEntry place node entries = entries := by
  induction entries with
  | nil => cases h
  | cons e rest ih =>
    obtain ⟨other, m⟩ := e
    by_cases hplace : place = other
    · subst hplace
      rw [List.lookup_cons_self, Option.some.injEq] at h
      rw [putEntry, if_pos rfl, h]
    · have hne : (place == other) = false := by simpa using hplace
      rw [List.lookup_cons, hne] at h
      rw [putEntry, if_neg hplace, ih h]

/-- Setting what is at a place to what is there changes nothing. -/
theorem put_of_node? {node : Node} (hplace : place ≠ []) (h : t.node? place = some node) :
    t.put place node = t := by
  rw [node?, nodeIn?, if_neg hplace] at h
  rw [put]
  split
  · simp only [putEntry_of_lookup h]
  · rfl

/-! ## Paths -/

namespace KeepsDirectories

/-- The target of a path stays the same. -/
theorem target (h : KeepsDirectories t u) (htarget : t.target p = .ok (some place)) :
    u.target p = .ok (some place) := by
  obtain ⟨hne, hwalk⟩ := target_eq_ok htarget
  obtain ⟨ss, last, hway⟩ := (List.eq_nil_or_concat' p.way).resolve_left hne
  have hlast : p.way.getLast? = some last := by simp [hway]
  obtain ⟨hdot, hdots⟩ := getLast?_way_of_target htarget hlast
  have hwalk' := h.walk hwalk
  rw [← origin_congr h.workingDirectory] at hwalk'
  rw [Path.way] at hlast hwalk'
  rw [FileTree.target, if_neg (text_ne_of_target htarget)]
  simp only [hlast, hwalk', hdot, hdots, or_self, if_false]

theorem isDirectory (h : KeepsDirectories t u) (hdir : t.isDirectory p = true) :
    u.isDirectory p = true := by
  rw [FileTree.isDirectory] at hdir ⊢
  split at hdir
  · next place hlocate =>
    rw [h.locate hlocate]
    exact decide_eq_true (h.node? place (of_decide_eq_true hdir))
  · cases hdir

end KeepsDirectories

/-! ## Directories -/

theorem locate_eq_ok_iff : t.locate p = .ok place ↔
    p.text ≠ "" ∧ ∃ b, t.walk (t.origin p) p.way = .ok b ∧
      (p.endsInSlash = true → t.node? b = some .directory) ∧ place = b := by
  rw [locate]
  split
  · next hempty => simp [hempty]
  · next htext =>
    rw [waypoints_eq]
    cases p.endsInSlash with
    | true =>
      rw [if_pos rfl, walk_concat]
      simp [htext, move, Path.isVoid]
    | false => simp [htext]

/-- A directory that has been made, or was there, is a directory. -/
theorem isDirectory_of_ensureDirectory (h : t.ensureDirectory p = .ok u) : u.isDirectory p = true := by
  rcases ensureDirectory_eq_ok h with hmake | ⟨rfl, hdir⟩
  · obtain ⟨place, htarget, -, hadmits, rfl⟩ := makeDirectory_eq_ok hmake
    have hkeeps : KeepsDirectories t (t.put place .directory) := .put hadmits
    have hmade : (t.put place .directory).node? place = some .directory := node?_put_self hadmits
    have hwalk := hkeeps.walk (target_eq_ok htarget).2
    rw [← origin_congr hkeeps.workingDirectory] at hwalk
    have hlocate : (t.put place .directory).locate p = .ok place :=
      locate_eq_ok_iff.mpr ⟨text_ne_of_target htarget, place, hwalk, fun _ => hmade, rfl⟩
    rw [isDirectory, hlocate]
    exact decide_eq_true hmade
  · exact hdir

/-- A directory that is there need not be made. -/
theorem ensureDirectory_of_isDirectory (h : t.isDirectory p = true) : t.ensureDirectory p = .ok t := by
  have hdirectory := h
  rw [isDirectory] at h
  split at h
  · next place hlocate =>
    obtain ⟨htext, b, hwalk, -, rfl⟩ := locate_eq_ok_iff.mp hlocate
    have hmake : t.makeDirectory p = .error .alreadyExists := by
      rw [Path.way] at hwalk
      rw [makeDirectory, target, if_neg htext]
      cases hlast : (p.segments.filter (· ≠ [])).getLast? with
      | none => rfl
      | some last =>
        simp only [hwalk]
        by_cases hdots : last = ['.'] ∨ last = ['.', '.']
        · simp [hdots]
        · simp [hdots, of_decide_eq_true h]
    rw [ensureDirectory, hmake]
    simp [hdirectory]
  · cases h

theorem makeDirectories_of_isDirectory (h : t.isDirectory p = true) : t.makeDirectories p = (t, none) := by
  rw [makeDirectories, Path.ancestors_eq, makeDirectoriesUp]
  split
  · rfl
  · rw [ensureDirectory_of_isDirectory h]

/-- When a path has been made with its parents, it is a directory, unless it is empty. -/
theorem isDirectory_of_makeDirectories (h : t.makeDirectories p = (u, none)) (htext : p.text ≠ "") :
    u.isDirectory p = true := by
  rw [makeDirectories, Path.ancestors_eq, makeDirectoriesUp, if_neg htext] at h
  split at h
  · next v hensure =>
    obtain ⟨rfl, -⟩ := Prod.mk.inj h
    exact isDirectory_of_ensureDirectory hensure
  · split at h
    · cases (Prod.mk.inj h).2
    · split at h
      · next hensure =>
        obtain ⟨rfl, -⟩ := Prod.mk.inj h
        exact isDirectory_of_ensureDirectory hensure
      · cases (Prod.mk.inj h).2
  · cases (Prod.mk.inj h).2

/-- Directories that have been made need not be made again. -/
theorem makeDirectories_again (h : t.makeDirectories p = (u, none)) (hkeeps : KeepsDirectories u v) :
    v.makeDirectories p = (v, none) := by
  by_cases htext : p.text = ""
  · rw [makeDirectories, Path.ancestors_eq, makeDirectoriesUp, if_pos htext]
  · exact makeDirectories_of_isDirectory (hkeeps.isDirectory (isDirectory_of_makeDirectories h htext))

/-! ## Files -/

/-- A text that is there need not be written again. -/
theorem writeText_again {text : String} (h : t.writeText p text = .ok u) (hkeeps : KeepsDirectories u v)
    (hnode : v.node? (t.reach p) = some (.file text.toUTF8)) : v.writeText p text = .ok v := by
  obtain ⟨hslash, place, htarget, -, rfl⟩ := writeText_eq_ok_iff.mp h
  obtain rfl := target_eq_reach htarget
  have htarget' := ((keepsDirectories_of_writeText h).trans hkeeps).target htarget
  have hplace : t.reach p ≠ [] := by
    intro hroot
    rw [hroot] at hnode
    cases hnode
  exact writeText_eq_ok_iff.mpr ⟨hslash, _, htarget', by simp [hnode], (put_of_node? hplace hnode).symm⟩

end ModuleBuild.FileTree
