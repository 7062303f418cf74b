import ModuleBuild.Diagnostic

/-!
# Messages as lines

A flattened message has one line for each of its texts, a message before its details, and the blanks at
the beginning of a line say how deep the text is nested. Nothing else is left of the nesting, and nothing
else is needed: a detail belongs to the last text before it that is nested one level less.

A text has a place in the message, which says for each level which of the details to go into. In the order
of the lines the places increase, so there is one line for each.

Main statements: `levels_append_inj`, by which the levels of its texts tell a message from any other, and
where it ends; `lines_flatten`, about the lines; and `flatten_lossless`.
-/

namespace ModuleBuild.MessageChain

/-! ## Places -/

/-- The text at a place of the message. The place counts at each level the details in front of the one to
go into. -/
def textAt? : MessageChain → List Nat → Option String
  | node text _, [] => some text
  | node _ details, i :: place => details[i]?.bind (textAt? · place)

mutual

/-- The texts of a message and its details in order, each with its place. -/
def placed : MessageChain → List (List Nat × String)
  | node text details => ([], text) :: placedDetails 0 details

/-- The texts of several messages in order, the first of which is detail number `i`. -/
def placedDetails (i : Nat) : List MessageChain → List (List Nat × String)
  | [] => []
  | m :: ms => (placed m).map (fun x => (i :: x.1, x.2)) ++ placedDetails (i + 1) ms

end

mutual

/-- The level of a text is the length of its place. -/
theorem levels_eq_map_placed (n : Nat) :
    (m : MessageChain) → m.levels n = m.placed.map fun x => (n + x.1.length, x.2)
  | node text details => by
    rw [levels, placed, List.map_cons, detailLevels_eq_map_placedDetails n 0 details]
    rfl

theorem detailLevels_eq_map_placedDetails (n i : Nat) :
    (ms : List MessageChain) →
      detailLevels (n + 1) ms = (placedDetails i ms).map fun x => (n + x.1.length, x.2)
  | [] => rfl
  | m :: ms => by
    rw [detailLevels, placedDetails, List.map_append, List.map_map, levels_eq_map_placed (n + 1) m,
      detailLevels_eq_map_placedDetails n (i + 1) ms]
    refine congrArg (· ++ _) (List.map_congr_left fun x _ => ?_)
    rw [Function.comp_apply, List.length_cons, Nat.add_assoc, Nat.add_comm 1]

end

mutual

theorem mem_placed_iff (place : List Nat) (text : String) :
    (m : MessageChain) → (place, text) ∈ m.placed ↔ m.textAt? place = some text
  | node top details => by
    rw [placed, List.mem_cons, mem_placedDetails_iff 0 place text details]
    cases place with
    | nil => simp [textAt?, eq_comm]
    | cons i place =>
      constructor
      · rintro (h | ⟨j, inner, hplace, h⟩)
        · cases (Prod.mk.inj h).1
        · obtain ⟨rfl, rfl⟩ : i = j ∧ place = inner := by simpa using hplace
          exact h
      · intro h
        exact Or.inr ⟨i, place, by rw [Nat.zero_add], h⟩

theorem mem_placedDetails_iff (i : Nat) (place : List Nat) (text : String) :
    (ms : List MessageChain) → (place, text) ∈ placedDetails i ms ↔
      ∃ j inner, place = (i + j) :: inner ∧ (ms[j]?.bind (textAt? · inner)) = some text
  | [] => by simp [placedDetails]
  | m :: ms => by
    rw [placedDetails, List.mem_append, List.mem_map, mem_placedDetails_iff (i + 1) place text ms]
    constructor
    · rintro (⟨⟨inner, top⟩, hx, h⟩ | ⟨j, inner, rfl, hinner⟩)
      · obtain ⟨rfl, rfl⟩ := Prod.mk.inj h
        exact ⟨0, inner, rfl, (mem_placed_iff inner top m).mp hx⟩
      · exact ⟨j + 1, inner, by rw [Nat.add_assoc, Nat.add_comm 1], hinner⟩
    · rintro ⟨j, inner, rfl, hinner⟩
      cases j with
      | zero => exact Or.inl ⟨(inner, text), (mem_placed_iff inner text m).mpr hinner, rfl⟩
      | succ j => exact Or.inr ⟨j, inner, by rw [Nat.add_assoc, Nat.add_comm 1], hinner⟩

end

mutual

/-- A message comes before its details, and each detail with all that is nested in it before the next. -/
theorem pairwise_placed : (m : MessageChain) → m.placed.Pairwise fun x y => x.1 < y.1
  | node text details => by
    rw [placed, List.pairwise_cons]
    refine ⟨?_, pairwise_placedDetails 0 details⟩
    rintro ⟨place, t⟩ hx
    obtain ⟨j, inner, rfl, -⟩ := (mem_placedDetails_iff 0 place t details).mp hx
    exact List.nil_lt_cons _ _

theorem pairwise_placedDetails (i : Nat) :
    (ms : List MessageChain) → (placedDetails i ms).Pairwise fun x y => x.1 < y.1
  | [] => List.Pairwise.nil
  | m :: ms => by
    -- The places in the first detail begin with `i`, those in the others with a greater number.
    rw [placedDetails, List.pairwise_append]
    refine ⟨?_, pairwise_placedDetails (i + 1) ms, ?_⟩
    · exact (pairwise_placed m).map _ fun x y h => List.cons_lt_cons_iff.mpr (Or.inr ⟨rfl, h⟩)
    · intro x hx y hy
      obtain ⟨z, -, rfl⟩ := List.mem_map.mp hx
      obtain ⟨j, inner, hplace, -⟩ := (mem_placedDetails_iff (i + 1) y.1 y.2 ms).mp hy
      rw [hplace]
      exact List.cons_lt_cons_iff.mpr (Or.inl (by omega))

end

/-! ## Levels -/

/-- What comes next is not on level `n` or deeper. -/
def Outside (n : Nat) (rest : List (Nat × String)) : Prop := ∀ x, rest.head? = some x → x.1 < n

theorem outside_nil (n : Nat) : Outside n [] := by
  intro x h
  cases h

theorem Outside.mono {n n' : Nat} {rest : List (Nat × String)} (h : Outside n rest) (hle : n ≤ n') :
    Outside n' rest :=
  fun x hx => Nat.lt_of_lt_of_le (h x hx) hle

/-- The first text of messages on level `n` stands on that level. -/
theorem not_outside_detailLevels (n : Nat) (m : MessageChain) (ms : List MessageChain)
    (rest : List (Nat × String)) : ¬Outside n (detailLevels n (m :: ms) ++ rest) := by
  obtain ⟨text, details⟩ := m
  intro h
  exact Nat.lt_irrefl n (h (n, text) rfl)

/-- Behind a detail on level `n` come other details on that level or what is outside, so nothing deeper. -/
theorem Outside.detailLevels_append {n : Nat} {rest : List (Nat × String)} (h : Outside n rest) :
    (ms : List MessageChain) → Outside (n + 1) (detailLevels n ms ++ rest)
  | [] => h.mono (Nat.le_succ n)
  | node text details :: ms => by
    intro x hx
    rw [detailLevels, levels, List.cons_append, List.cons_append, List.head?_cons] at hx
    obtain rfl := Option.some.inj hx
    exact Nat.lt_succ_self n

mutual

/-- The levels and texts of a message tell it from any other, and tell where it ends. -/
theorem levels_append_inj {n : Nat} {r s : List (Nat × String)} (hr : Outside (n + 1) r)
    (hs : Outside (n + 1) s) :
    (a b : MessageChain) → a.levels n ++ r = b.levels n ++ s → a = b ∧ r = s
  | node text details, node text' details', h => by
    rw [levels, levels, List.cons_append, List.cons_append, List.cons.injEq, Prod.mk.injEq] at h
    obtain ⟨⟨-, rfl⟩, h⟩ := h
    obtain ⟨rfl, rfl⟩ := detailLevels_append_inj hr hs details details' h
    exact ⟨rfl, rfl⟩

theorem detailLevels_append_inj {n : Nat} {r s : List (Nat × String)} (hr : Outside n r)
    (hs : Outside n s) :
    (as bs : List MessageChain) → detailLevels n as ++ r = detailLevels n bs ++ s → as = bs ∧ r = s
  | [], [], h => ⟨rfl, h⟩
  | [], b :: bs, h => absurd (h ▸ hr) (not_outside_detailLevels n b bs s)
  | a :: as, [], h => absurd (h ▸ hs) (not_outside_detailLevels n a as r)
  | a :: as, b :: bs, h => by
    rw [detailLevels, detailLevels, List.append_assoc, List.append_assoc] at h
    -- What is behind the first detail is outside of it on both sides, so it ends at the same text.
    obtain ⟨rfl, hrest⟩ :=
      levels_append_inj (hr.detailLevels_append as) (hs.detailLevels_append bs) a b h
    obtain ⟨rfl, rfl⟩ := detailLevels_append_inj hr hs as bs hrest
    exact ⟨rfl, rfl⟩

end

theorem levels_inj {a b : MessageChain} (h : a.levels 0 = b.levels 0) : a = b :=
  (levels_append_inj (outside_nil 1) (outside_nil 1) a b (by simpa using h)).1

/-! ## Lines -/

/-- No text of the message contains a line feed or begins with a space. -/
def IsIndentable (m : MessageChain) : Prop :=
  ∀ place text, m.textAt? place = some text → '\n' ∉ text.toList ∧ text.toList.head? ≠ some ' '

theorem isIndentable_iff {m : MessageChain} :
    m.IsIndentable ↔ ∀ x ∈ m.placed, '\n' ∉ x.2.toList ∧ x.2.toList.head? ≠ some ' ' := by
  constructor
  · rintro h ⟨place, text⟩ hx
    exact h place text ((mem_placed_iff place text m).mp hx)
  · intro h place text htext
    exact h (place, text) ((mem_placed_iff place text m).mpr htext)

/-- The line of a text on the given level. -/
def line (level : Nat) (text : String) : List Char := List.replicate (2 * level) ' ' ++ text.toList

theorem toList_indented (level : Nat) (text : String) :
    (indented level text).toList = line level text := by
  rw [indented, String.toList_append, String.toList_ofList, line]

theorem feed_not_mem_line {level : Nat} {text : String} (h : '\n' ∉ text.toList) :
    '\n' ∉ line level text := by
  rw [line, List.mem_append, List.mem_replicate]
  rintro (⟨-, hspace⟩ | hmem)
  · exact absurd hspace (by decide)
  · exact h hmem

/-- The level and the text that a line shows. -/
def ofLine (cs : List Char) : Nat × String :=
  ((cs.takeWhile (· == ' ')).length / 2, String.ofList (cs.dropWhile (· == ' ')))

theorem ofLine_line (level : Nat) {text : String} (h : text.toList.head? ≠ some ' ') :
    ofLine (line level text) = (level, text) := by
  have hspaces : ∀ c ∈ List.replicate (2 * level) ' ', (c == ' ') = true := by
    intro c hc
    rw [(List.mem_replicate.mp hc).2]
    rfl
  have htext : text.toList.takeWhile (· == ' ') = [] ∧
      text.toList.dropWhile (· == ' ') = text.toList := by
    cases hcs : text.toList with
    | nil => exact ⟨rfl, rfl⟩
    | cons c cs =>
      have hc : ¬(c == ' ') = true := by
        intro hspace
        rw [hcs, eq_of_beq hspace] at h
        exact h rfl
      exact ⟨List.takeWhile_cons_of_neg hc, List.dropWhile_cons_of_neg hc⟩
  rw [ofLine, line, List.takeWhile_append_of_pos hspaces, List.dropWhile_append_of_pos hspaces,
    htext.1, htext.2, List.append_nil, List.length_replicate, String.ofList_toList,
    Nat.mul_div_cancel_left level (by decide)]

variable {m : MessageChain}

/-- A flattened message has a line for each text, in order. -/
theorem lines_flatten (h : m.IsIndentable) :
    (m.flatten "\n").toList.splitOn '\n' = m.placed.map fun x => line x.1.length x.2 := by
  have hlines : (m.flatten "\n").toList =
      ['\n'].intercalate (m.placed.map fun x => line x.1.length x.2) := by
    rw [flatten, String.toList_intercalate, levels_eq_map_placed, List.map_map, List.map_map]
    refine congrArg _ (List.map_congr_left fun x _ => ?_)
    rw [Function.comp_apply, Function.comp_apply, toList_indented, Nat.zero_add]
  rw [hlines]
  refine List.splitOn_intercalate '\n' ?_ ?_
  · intro cs hcs
    obtain ⟨x, hx, rfl⟩ := List.mem_map.mp hcs
    exact feed_not_mem_line (isIndentable_iff.mp h x hx).1
  · obtain ⟨text, details⟩ := m
    simp [placed]

theorem map_ofLine_flatten (h : m.IsIndentable) :
    ((m.flatten "\n").toList.splitOn '\n').map ofLine = m.levels 0 := by
  rw [lines_flatten h, levels_eq_map_placed, List.map_map]
  refine List.map_congr_left fun x hx => ?_
  rw [Function.comp_apply, ofLine_line _ (isIndentable_iff.mp h x hx).2, Nat.zero_add]

/-- The flattened message has one line for each text, a message before its details and indented by two
spaces for each level; and no two messages are flattened to the same lines. -/
theorem flatten_lossless :
    (∀ m : MessageChain, m.IsIndentable →
      (m.flatten "\n").toList.splitOn '\n' = m.placed.map (fun x => line x.1.length x.2) ∧
      m.placed.Pairwise (fun x y => x.1 < y.1) ∧
      ∀ place text, (place, text) ∈ m.placed ↔ m.textAt? place = some text) ∧
    ∀ a b : MessageChain, a.IsIndentable → b.IsIndentable →
      (a.flatten "\n" = b.flatten "\n" ↔ a = b) := by
  constructor
  · intro m h
    exact ⟨lines_flatten h, pairwise_placed m, fun place text => mem_placed_iff place text m⟩
  · intro a b ha hb
    constructor
    · intro h
      apply levels_inj
      rw [← map_ofLine_flatten ha, h, map_ofLine_flatten hb]
    · rintro rfl
      rfl

/-- The last text may belong to the message or to its first detail, and the lines tell the one from the
other. -/
theorem flatten_lossless_of_two_levels :
    let a := node "No match." [node "Missing x." [plain "Did you mean y?"], plain "Declared here."]
    let b := node "No match." [node "Missing x." [plain "Did you mean y?", plain "Declared here."]]
    a.IsIndentable ∧ b.IsIndentable ∧
      (a.flatten "\n").toList.splitOn '\n' =
        ["No match.", "  Missing x.", "    Did you mean y?", "  Declared here."].map String.toList ∧
      a.flatten "\n" ≠ b.flatten "\n" := by
  intro a b
  have ha : a.IsIndentable := isIndentable_iff.mpr (by decide)
  have hb : b.IsIndentable := isIndentable_iff.mpr (by decide)
  have hne : a ≠ b := by simp [a, b, plain]
  refine ⟨ha, hb, ?_, ?_⟩
  · rw [(flatten_lossless.1 a ha).1]
    decide
  · exact fun h => hne ((flatten_lossless.2 a b ha hb).mp h)

end ModuleBuild.MessageChain
