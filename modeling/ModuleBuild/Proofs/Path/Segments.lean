import ModuleBuild.Path
import Mathlib.Data.List.Basic

/-!
# Segments of paths

Splitting a text at its slashes and putting the parts together again are inverse to each other. A
path and its parents are therefore known by their segments: the names on the way of a parent are the
first names on the way of the path itself.

Main statements: `joinSlash_splitSlash` and `splitSlash_joinSlash`; `way_of_mem_ancestors`, by which
a parent starts where the path starts and goes a part of its way; and `way_append`, by which what is written
behind a path is written behind its last segment.
-/

namespace ModuleBuild.Path

/-! ## Splitting and joining -/

theorem splitSlash_ne_nil (cs : List Char) : splitSlash cs ≠ [] := by
  fun_cases splitSlash cs <;> simp

/-- A character other than a slash belongs to the first part. -/
theorem splitSlash_cons_of_ne {c : Char} (hc : c ≠ '/') (cs : List Char) :
    ∃ s ss, splitSlash cs = s :: ss ∧ splitSlash (c :: cs) = (c :: s) :: ss := by
  obtain ⟨s, ss, hsplit⟩ := List.exists_cons_of_ne_nil (splitSlash_ne_nil cs)
  exact ⟨s, ss, hsplit, by simp [splitSlash, hc, hsplit]⟩

theorem not_mem_of_mem_splitSlash {cs : List Char} {s : Segment} (h : s ∈ splitSlash cs) :
    '/' ∉ s := by
  induction cs generalizing s with
  | nil =>
    obtain rfl : s = [] := by simpa [splitSlash] using h
    simp
  | cons c cs ih =>
    by_cases hc : c = '/'
    · subst hc
      rw [splitSlash, if_pos rfl] at h
      rcases List.mem_cons.mp h with rfl | h
      · simp
      · exact ih h
    · obtain ⟨first, rest, hsplit, hcons⟩ := splitSlash_cons_of_ne hc cs
      rw [hcons] at h
      rcases List.mem_cons.mp h with rfl | h
      · have hfirst : '/' ∉ first := ih (by rw [hsplit]; exact List.mem_cons_self ..)
        intro hmem
        rcases List.mem_cons.mp hmem with rfl | hmem
        · exact hc rfl
        · exact hfirst hmem
      · exact ih (by rw [hsplit]; exact List.mem_cons_of_mem _ h)

theorem mem_of_mem_splitSlash {cs : List Char} {s : Segment} (hs : s ∈ splitSlash cs) {c : Char}
    (hc : c ∈ s) : c ∈ cs := by
  induction cs generalizing s with
  | nil =>
    obtain rfl : s = [] := by simpa [splitSlash] using hs
    cases hc
  | cons d ds ih =>
    by_cases hd : d = '/'
    · rw [splitSlash, if_pos hd] at hs
      rcases List.mem_cons.mp hs with rfl | hs
      · cases hc
      · exact List.mem_cons_of_mem _ (ih hs hc)
    · obtain ⟨first, rest, hsplit, hcons⟩ := splitSlash_cons_of_ne hd ds
      rw [hcons] at hs
      rcases List.mem_cons.mp hs with rfl | hs
      · rcases List.mem_cons.mp hc with rfl | hc
        · exact List.mem_cons_self ..
        · exact List.mem_cons_of_mem _ (ih (by rw [hsplit]; exact List.mem_cons_self ..) hc)
      · exact List.mem_cons_of_mem _ (ih (by rw [hsplit]; exact List.mem_cons_of_mem _ hs) hc)

theorem joinSlash_cons_of_ne_nil (s : Segment) {ss : List Segment} (h : ss ≠ []) :
    joinSlash (s :: ss) = s ++ '/' :: joinSlash ss := by
  cases ss with
  | nil => exact absurd rfl h
  | cons t ss => rfl

theorem joinSlash_cons_cons (c : Char) (s : Segment) (ss : List Segment) :
    joinSlash ((c :: s) :: ss) = c :: joinSlash (s :: ss) := by
  cases ss <;> rfl

/-- Splitting a text at its slashes loses nothing. -/
theorem joinSlash_splitSlash (cs : List Char) : joinSlash (splitSlash cs) = cs := by
  induction cs with
  | nil => rfl
  | cons c cs ih =>
    by_cases hc : c = '/'
    · subst hc
      rw [splitSlash, if_pos rfl, joinSlash_cons_of_ne_nil _ (splitSlash_ne_nil cs), ih]
      rfl
    · obtain ⟨s, ss, hsplit, hcons⟩ := splitSlash_cons_of_ne hc cs
      rw [hcons, joinSlash_cons_cons, ← hsplit, ih]

theorem splitSlash_append {s : Segment} (h : '/' ∉ s) (cs : List Char) :
    splitSlash (s ++ '/' :: cs) = s :: splitSlash cs := by
  induction s with
  | nil => simp [splitSlash]
  | cons c s ih =>
    have hc : c ≠ '/' := fun hcon => h (by simp [hcon])
    have hs : '/' ∉ s := fun hmem => h (List.mem_cons_of_mem _ hmem)
    simp [splitSlash, hc, ih hs]

theorem splitSlash_of_not_mem {s : Segment} (h : '/' ∉ s) : splitSlash s = [s] := by
  induction s with
  | nil => rfl
  | cons c s ih =>
    have hc : c ≠ '/' := fun hcon => h (by simp [hcon])
    have hs : '/' ∉ s := fun hmem => h (List.mem_cons_of_mem _ hmem)
    simp [splitSlash, hc, ih hs]

/-- Segments that are joined are found again. -/
theorem splitSlash_joinSlash {ss : List Segment} (hne : ss ≠ []) (h : ∀ s ∈ ss, '/' ∉ s) :
    splitSlash (joinSlash ss) = ss := by
  induction ss with
  | nil => exact absurd rfl hne
  | cons s ss ih =>
    have hs : '/' ∉ s := h s (List.mem_cons_self ..)
    by_cases hss : ss = []
    · subst hss
      exact splitSlash_of_not_mem hs
    · rw [joinSlash_cons_of_ne_nil s hss, splitSlash_append hs,
        ih hss fun t ht => h t (List.mem_cons_of_mem _ ht)]

theorem joinSlash_append_last (ss : List Segment) (s t : Segment) :
    joinSlash (ss ++ [s ++ t]) = joinSlash (ss ++ [s]) ++ t := by
  induction ss with
  | nil => rfl
  | cons first ss ih =>
    rw [List.cons_append, List.cons_append, joinSlash_cons_of_ne_nil _ (by simp),
      joinSlash_cons_of_ne_nil _ (by simp), ih, List.append_assoc, List.cons_append]

/-- What is written behind a text without a slash belongs to its last segment. -/
theorem splitSlash_append_last {cs : List Char} {ss : List Segment} {s t : Segment}
    (hsplit : splitSlash cs = ss ++ [s]) (ht : '/' ∉ t) : splitSlash (cs ++ t) = ss ++ [s ++ t] := by
  have hslash : ∀ r ∈ ss ++ [s], '/' ∉ r := by
    rw [← hsplit]
    exact fun r hr => not_mem_of_mem_splitSlash hr
  have hjoined : cs ++ t = joinSlash (ss ++ [s ++ t]) := by
    rw [joinSlash_append_last, ← hsplit, joinSlash_splitSlash]
  rw [hjoined]
  apply splitSlash_joinSlash (by simp)
  intro r hr
  rcases List.mem_append.mp hr with hr | hr
  · exact hslash r (List.mem_append_left _ hr)
  · obtain rfl := List.mem_singleton.mp hr
    rw [List.mem_append, not_or]
    exact ⟨hslash s (by simp), ht⟩

/-! ## Ways -/

/-- The segments of a path that are not empty. -/
def way (p : Path) : List Segment := p.segments.filter (· ≠ [])

theorem segments_joinSlash {ss : List Segment} (hne : ss ≠ []) (h : ∀ s ∈ ss, '/' ∉ s) :
    segments ⟨String.ofList (joinSlash ss)⟩ = ss := by
  rw [segments, String.toList_ofList, splitSlash_joinSlash hne h]

/-- The first segment of an absolute path is empty, and others follow it. -/
theorem isAbsolute_iff_segments (p : Path) :
    p.isAbsolute = true ↔ ∃ body, body ≠ [] ∧ p.segments = [] :: body := by
  rw [isAbsolute, segments]
  cases p.text.toList with
  | nil => simp [splitSlash]
  | cons c cs =>
    by_cases hc : c = '/'
    · subst hc
      simp [splitSlash, splitSlash_ne_nil]
    · obtain ⟨s, ss, -, hcons⟩ := splitSlash_cons_of_ne hc cs
      simp [hc, hcons]

/-- The front of a path and the segments behind it are its segments. -/
theorem split_append {p : Path} (h : p.text ≠ "") : p.split.1 ++ p.split.2 = p.segments := by
  rw [split, if_neg h]
  split <;> simp_all

/-- A path that starts with a name or with `..` has no front. -/
theorem split_of_isVoid_eq_false {p : Path} {s : Segment} {body : List Segment}
    (h : p.segments = s :: body) (hs : isVoid s = false) : p.split = ([], s :: body) := by
  have htext : p.text ≠ "" := by
    intro hempty
    rw [segments, hempty] at h
    obtain ⟨rfl, -⟩ := List.cons.inj h
    cases hs
  rw [split, if_neg htext, h]
  split
  · next heq =>
    rw [(List.cons.inj heq).1] at hs
    cases hs
  · next heq =>
    rw [(List.cons.inj heq).1] at hs
    cases hs
  · rfl

/-- The front of an absolute path is the empty segment; other fronts are not empty segments. -/
theorem split_cases {p : Path} (h : p.text ≠ "") :
    (p.isAbsolute = true ∧ p.split.1 = [[]]) ∨
      (p.isAbsolute = false ∧ (p.split.1 = [['.']] ∨ p.split.1 = [] ∧ p.split.2.head? ≠ some [])) := by
  cases ha : p.isAbsolute with
  | true =>
    obtain ⟨body, -, hbody⟩ := (isAbsolute_iff_segments p).mp ha
    refine Or.inl ⟨rfl, ?_⟩
    rw [split, if_neg h, hbody]
  | false =>
    refine Or.inr ⟨rfl, ?_⟩
    have hhead : ∀ body, p.segments ≠ [] :: body := by
      intro body hbody
      by_cases hnil : body = []
      · -- A single empty segment is the empty path.
        subst hnil
        have htext := joinSlash_splitSlash p.text.toList
        rw [← segments, hbody] at htext
        exact h (String.toList_eq_nil_iff.mp htext.symm)
      · have htrue := (isAbsolute_iff_segments p).mpr ⟨body, hnil, hbody⟩
        rw [ha] at htrue
        cases htrue
    rw [split, if_neg h]
    split
    · next body hbody => exact absurd hbody (hhead body)
    · exact Or.inl rfl
    · next body _ _ =>
      refine Or.inr ⟨rfl, fun hcon => ?_⟩
      obtain ⟨rest, hrest⟩ := List.head?_eq_some_iff.mp hcon
      exact hhead rest hrest

/-! ## Parents -/

/-- A parent is written with the same front and with the first segments behind it. -/
theorem eq_of_mem_parentsOf {front reversed : List Segment} {q : Path}
    (h : q ∈ parentsOf front reversed) :
    q = ⟨""⟩ ∨ ∃ kept, kept <:+ reversed ∧ q = ofSplit front kept.reverse := by
  fun_induction parentsOf front reversed with
  | case1 => exact Or.inl (List.mem_singleton.mp h)
  | case2 => cases h
  | case3 reversed last before hlast kept ih =>
    have hkept : kept <:+ reversed := by
      have hbefore : before <:+ reversed :=
        (List.suffix_cons last before).trans (hlast ▸ List.dropWhile_suffix _)
      exact (List.dropWhile_suffix _).trans hbefore
    rcases List.mem_cons.mp h with rfl | h
    · exact Or.inr ⟨kept, hkept, rfl⟩
    · rcases ih h with hempty | ⟨kept', hkept', hq⟩
      · exact Or.inl hempty
      · exact Or.inr ⟨kept', hkept'.trans hkept, hq⟩

theorem ancestors_eq (p : Path) : p.ancestors = p :: parentsOf p.split.1 p.split.2.reverse := rfl

/-- The segments of a path are put together from its front and the first segments behind it, unless
this is the root. -/
theorem segments_ofSplit {front body : List Segment} (hslash : ∀ s ∈ front ++ body, '/' ∉ s)
    (hne : front ++ body ≠ []) (hroot : ¬(front = [[]] ∧ body = [])) :
    (ofSplit front body).segments = front ++ body := by
  have hcond : ¬(front = [[]] && body = []) := by simpa using hroot
  rw [ofSplit, if_neg hcond, segments_joinSlash hne hslash]

section OfSplit

variable {p : Path} {init : List Segment}

theorem not_mem_of_mem_front (hp : p.text ≠ "") (hinit : init <+: p.split.2) :
    ∀ s ∈ p.split.1 ++ init, '/' ∉ s := by
  intro s hs
  have hmem : s ∈ p.segments := by
    rw [← split_append hp]
    exact ((List.prefix_append_right_inj _).mpr hinit).subset hs
  exact not_mem_of_mem_splitSlash hmem

/-- With fewer segments behind its front a path goes a part of its way. -/
theorem way_ofSplit (hp : p.text ≠ "") (hinit : init <+: p.split.2)
    (hne : p.split.1 ++ init ≠ []) : (ofSplit p.split.1 init).way <+: p.way := by
  by_cases hroot : p.split.1 = [[]] ∧ init = []
  · rw [hroot.1, hroot.2]
    exact List.nil_prefix
  · rw [way, way, segments_ofSplit (not_mem_of_mem_front hp hinit) hne hroot, ← split_append hp]
    exact ((List.prefix_append_right_inj _).mpr hinit).filter _

/-- With fewer segments behind its front a path starts at the same place. -/
theorem isAbsolute_ofSplit (hp : p.text ≠ "") (hinit : init <+: p.split.2)
    (hne : p.split.1 ++ init ≠ []) : (ofSplit p.split.1 init).isAbsolute = p.isAbsolute := by
  have hslash := not_mem_of_mem_front hp hinit
  rcases split_cases hp with ⟨ha, hfront⟩ | ⟨ha, hfront⟩
  · rw [ha, hfront]
    rw [hfront] at hslash hne
    by_cases hnil : init = []
    · subst hnil
      rfl
    · refine (isAbsolute_iff_segments _).mpr ⟨init, hnil, ?_⟩
      exact segments_ofSplit hslash hne fun hroot => hnil hroot.2
  · have hroot : ¬(p.split.1 = [[]] ∧ init = []) := by
      rcases hfront with h | ⟨h, -⟩ <;> simp [h]
    rw [ha, ← Bool.not_eq_true, isAbsolute_iff_segments, segments_ofSplit hslash hne hroot]
    rintro ⟨body, -, hbody⟩
    rcases hfront with h | ⟨h, hhead⟩
    · rw [h] at hbody
      cases hbody
    · rw [h, List.nil_append] at hbody
      obtain ⟨rest, hrest⟩ := hinit
      refine hhead ?_
      rw [← hrest, hbody]
      rfl

end OfSplit

/-- A parent of a path starts where the path starts, and goes the first part of its way. -/
theorem way_of_mem_ancestors {p q : Path} (h : q ∈ p.ancestors) (hq : q.text ≠ "") :
    q.isAbsolute = p.isAbsolute ∧ q.way <+: p.way := by
  rw [ancestors_eq] at h
  rcases List.mem_cons.mp h with rfl | h
  · exact ⟨rfl, List.prefix_refl _⟩
  rcases eq_of_mem_parentsOf h with rfl | ⟨kept, hkept, rfl⟩
  · exact absurd rfl hq
  have hinit : kept.reverse <+: p.split.2 := by
    rwa [← List.reverse_suffix, List.reverse_reverse]
  have hne : p.split.1 ++ kept.reverse ≠ [] := by
    intro hnil
    obtain ⟨hfront, hbody⟩ := List.append_eq_nil_iff.mp hnil
    rw [hfront, hbody] at hq
    exact hq rfl
  have hp : p.text ≠ "" := by
    intro hp
    -- The empty path has no parents but the empty path.
    have hsplit : p.split = ([], []) := by rw [split, if_pos hp]
    rw [hsplit] at hinit hne
    exact hne (List.prefix_nil.mp hinit)
  exact ⟨isAbsolute_ofSplit hp hinit hne, way_ofSplit hp hinit hne⟩

/-! ## Writing more behind a path -/

theorem isAbsolute_append {p : Path} (h : p.text ≠ "") (text : String) :
    isAbsolute ⟨p.text ++ text⟩ = p.isAbsolute := by
  have hne : p.text.toList ≠ [] := by simpa using h
  simp [isAbsolute, List.head?_append_of_ne_nil _ hne]

/-- More behind a path is more behind it seen from anywhere. -/
theorem join_append (a : Path) {b : Path} {text : String} (h : text.toList.head? ≠ some '/') :
    a.join ⟨b.text ++ text⟩ = ⟨(a.join b).text ++ text⟩ := by
  have habsolute : isAbsolute ⟨b.text ++ text⟩ = b.isAbsolute := by
    by_cases hempty : b.text = ""
    · simp [isAbsolute, hempty, h]
    · exact isAbsolute_append hempty text
  rw [join, join, habsolute]
  split
  · rfl
  · split <;> simp [String.append_assoc]

/-- A path that is neither empty nor ends in a slash has a last segment, and what is written behind the
path belongs to it. -/
theorem way_append {p : Path} (hne : p.text ≠ "") (hslash : p.endsInSlash = false) :
    ∃ ss s, s ≠ [] ∧ p.way = ss ++ [s] ∧
      ∀ t : String, '/' ∉ t.toList → way ⟨p.text ++ t⟩ = ss ++ [s ++ t.toList] := by
  obtain ⟨cs, c, hcs⟩ :=
    (List.eq_nil_or_concat' p.text.toList).resolve_left (by simpa using hne)
  have hc : '/' ∉ [c] := by
    intro hcon
    obtain rfl := List.mem_singleton.mp hcon
    simp [endsInSlash, hcs] at hslash
  obtain ⟨ss, s, hsplit⟩ :=
    (List.eq_nil_or_concat' (splitSlash cs)).resolve_left (splitSlash_ne_nil cs)
  have hsegments : p.segments = ss ++ [s ++ [c]] := by
    rw [segments, hcs]
    exact splitSlash_append_last hsplit hc
  refine ⟨ss.filter (· ≠ []), s ++ [c], by simp, by simp [way, hsegments], fun t ht => ?_⟩
  have hlonger : segments ⟨p.text ++ t⟩ = ss ++ [s ++ [c] ++ t.toList] := by
    rw [segments, String.toList_append]
    exact splitSlash_append_last hsegments ht
  simp [way, hlonger]

end ModuleBuild.Path
