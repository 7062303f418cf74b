import ModuleBuild.Proofs.Outline.Scanning
import ModuleBuild.Proofs.Token.Places

/-!
# The statements of a text

Collecting statements hands out the tokens of a file in their order, each to one statement: a recognised
declaration takes those that it uses, and everything else goes to the run that is pending. So the
statements and their tokens can be listed side by side, and what is known about the order of tokens is
known about statements.

Main statements: `exists_parts_collect`, which lists the statements with their tokens; and
`SourceFile.partition_statements`, which says for a text what this means for the spans.
-/

namespace ModuleBuild

open Grammar

namespace Token

theorem Increasing.start_extent_le {ts : List Token} {t : Token} (h : Increasing ts) (ht : t ∈ ts) :
    (extent ts).start ≤ t.span.start ∧ t.span.stop ≤ (extent ts).stop := by
  constructor
  · cases ts with
    | nil => simp at ht
    | cons first ts =>
      rcases List.mem_cons.mp ht with rfl | ht
      · exact le_rfl
      · have hbefore := (List.pairwise_cons.mp h.apart).1 t ht
        exact (h.start_le_stop first List.mem_cons_self).trans hbefore
  · rcases List.eq_nil_or_concat ts with rfl | ⟨front, last, rfl⟩
    · simp at ht
    · rw [List.concat_eq_append] at h ht ⊢
      have hlast : (extent (front ++ [last])).stop = last.span.stop := by
        rw [extent, List.getLast?_concat]
        rfl
      rw [hlast]
      rcases List.mem_append.mp ht with ht | ht
      · have hbehind := (List.pairwise_append.mp h.apart).2.2 t ht last (by simp)
        exact hbehind.trans (h.start_le_stop last (by simp))
      · rw [List.mem_singleton.mp ht]

theorem exists_start_eq {ts : List Token} (h : ts ≠ []) :
    ∃ t, ts.head? = some t ∧ (extent ts).start = t.span.start := by
  obtain ⟨t, us, rfl⟩ := List.exists_cons_of_ne_nil h
  exact ⟨t, rfl, rfl⟩

theorem exists_stop_eq {ts : List Token} (h : ts ≠ []) :
    ∃ t ∈ ts, (extent ts).stop = t.span.stop := by
  refine ⟨ts.getLast h, List.getLast_mem h, ?_⟩
  rw [extent, List.getLast?_eq_some_getLast h]
  rfl

end Token

namespace Statement

/-- The statement is made up of these tokens; a declaration begins with its keyword. -/
structure ConsistsOf (s : Statement) (ts : List Token) : Prop where
  ne_nil : ts ≠ []
  span : s.span = Token.extent ts
  declared : s.kind = .other ∨ ∃ keyword us, ts = keyword :: us ∧ s.DeclaredBy keyword us

theorem consistsOf_other {ts : List Token} (h : ts ≠ []) :
    ConsistsOf ⟨.other, Token.extent ts⟩ ts := ⟨h, rfl, Or.inl rfl⟩

/-- The part of a run that is pending, as a statement with its tokens. -/
def pendingParts (ts : List Token) : List (Statement × List Token) :=
  if ts = [] then [] else [(⟨.other, Token.extent ts⟩, ts)]

theorem map_fst_pendingParts (ts : List Token) :
    (pendingParts ts).map (·.1) = ofPending (pendingSpan ts) := by
  unfold pendingParts pendingSpan
  split <;> rfl

theorem flatMap_snd_pendingParts (ts : List Token) : (pendingParts ts).flatMap (·.2) = ts := by
  unfold pendingParts
  split
  · next h => rw [h]; rfl
  · simp

theorem consistsOf_of_mem_pendingParts {ts : List Token} {x : Statement × List Token}
    (h : x ∈ pendingParts ts) : x.1.ConsistsOf x.2 := by
  unfold pendingParts at h
  split at h
  · simp at h
  · next hne =>
    rw [List.mem_singleton.mp h]
    exact consistsOf_other hne

/-- The statements that are collected behind the pending tokens `as` share the tokens among
themselves. -/
theorem exists_parts_collect (as : List Token) {ts : List Token}
    (hspans : Token.Increasing (as ++ ts)) (previous : Option Token) (depth : Nat) :
    ∃ parts : List (Statement × List Token),
      parts.map (·.1) = collect previous depth (pendingSpan as) ts ∧
      parts.flatMap (·.2) = as ++ ts ∧ ∀ x ∈ parts, x.1.ConsistsOf x.2 := by
  induction hlength : ts.length using Nat.strongRecOn generalizing as previous depth ts with
  | _ n ih =>
    subst hlength
    cases ts with
    | nil =>
      refine ⟨pendingParts as, ?_, ?_, fun x => consistsOf_of_mem_pendingParts⟩
      · rw [collect, map_fst_pendingParts]
      · rw [flatMap_snd_pendingParts, List.append_nil]
    | cons t ts =>
      cases hfound : (if depth = 0 ∧ !previous.any (·.isPunct '.') then moduleStatement? t ts
          else none) with
      | some r =>
        -- A declaration takes the tokens that it uses.
        obtain ⟨s, rest⟩ := r
        have hstatement := (Option.ite_none_right_eq_some.mp hfound).2
        obtain ⟨used, last, rfl, hspan, hdeclared⟩ := moduleStatement?_eq_append hstatement
        have htokens : t :: (used ++ last :: rest) = (t :: (used ++ [last])) ++ rest := by simp
        rw [htokens] at hspans
        have hself : s.ConsistsOf (t :: (used ++ [last])) :=
          ⟨List.cons_ne_nil _ _, hspan.trans hspans.right.left.merge_first_last,
            Or.inr ⟨t, used ++ [last], rfl, hdeclared⟩⟩
        obtain ⟨parts, hstatements, hall, hparts⟩ :=
          ih rest.length (by simp; omega) [] hspans.right.right none 0 rfl
        refine ⟨pendingParts as ++ (s, t :: (used ++ [last])) :: parts, ?_, ?_, ?_⟩
        · rw [collect_cons_of_eq_some hfound, List.map_append, map_fst_pendingParts, List.map_cons,
            hstatements]
          rfl
        · rw [List.flatMap_append, flatMap_snd_pendingParts, List.flatMap_cons, hall, htokens]
          rfl
        · intro x hx
          rcases List.mem_append.mp hx with hx | hx
          · exact consistsOf_of_mem_pendingParts hx
          · rcases List.mem_cons.mp hx with rfl | hx
            · exact hself
            · exact hparts x hx
      | none =>
        have htokens : as ++ t :: ts = (as ++ [t]) ++ ts := by simp
        rw [htokens] at hspans ⊢
        rw [collect_cons_of_eq_none hfound, merge_pendingSpan hspans.left]
        split
        · -- The run ends with this token.
          obtain ⟨parts, hstatements, hall, hparts⟩ :=
            ih ts.length (by simp) [] hspans.right (some t) (depthBehind depth t) rfl
          refine ⟨(⟨.other, Token.extent (as ++ [t])⟩, as ++ [t]) :: parts, ?_, ?_, ?_⟩
          · rw [List.map_cons, hstatements]
            rfl
          · rw [List.flatMap_cons, hall]
            rfl
          · intro x hx
            rcases List.mem_cons.mp hx with rfl | hx
            · exact consistsOf_other (by simp)
            · exact hparts x hx
        · have hpending : some (Token.extent (as ++ [t])) = pendingSpan (as ++ [t]) := by
            simp [pendingSpan]
          rw [hpending]
          exact ih ts.length (by simp) (as ++ [t]) hspans (some t) (depthBehind depth t) rfl

/-! ## The spans of statements -/

/-- The statements `ss` divide the tokens `ts` of the text `cs` among themselves. -/
structure Partition (cs : List Char) (ts : List Token) (ss : List Statement) : Prop where
  /-- Statements lie one behind the other. -/
  ordered : ss.Pairwise fun s u => s.span.stop ≤ u.span.start
  /-- No statement is empty. -/
  nonempty : ∀ s ∈ ss, s.span.start < s.span.stop
  /-- A statement begins where a token begins. -/
  start : ∀ s ∈ ss, ∃ t ∈ ts, s.span.start = t.span.start
  /-- A statement ends where a token ends. -/
  stop : ∀ s ∈ ss, ∃ t ∈ ts, s.span.stop = t.span.stop
  /-- Each token lies inside one statement and no other. -/
  inside : ∀ t ∈ ts, ∃! s, s ∈ ss ∧ s.span.start ≤ t.span.start ∧ t.span.stop ≤ s.span.stop
  /-- An import declaration begins at the word `import`, a re-export at the word `export`. -/
  keyword : ∀ s ∈ ss, ∀ word, s.keyword? = some word →
    ∃ t ∈ ts, t.isWord word = true ∧ s.span.start = t.span.start
  /-- A declaration contains its specifier, which is the text that stands there. -/
  specifier : ∀ s ∈ ss, ∀ specifier, s.specifier? = some specifier →
    s.span.start ≤ specifier.span.start ∧ specifier.span.stop ≤ s.span.stop ∧
      Text.slice? cs specifier.span.start specifier.span.stop = some specifier.raw.toList

theorem ConsistsOf.before {s u : Statement} {us vs : List Token} (hs : s.ConsistsOf us)
    (hu : u.ConsistsOf vs) (h : ∀ t ∈ us, ∀ v ∈ vs, t.span.stop ≤ v.span.start) :
    s.span.stop ≤ u.span.start := by
  obtain ⟨t, ht, hstop⟩ := Token.exists_stop_eq hs.ne_nil
  obtain ⟨v, hv, hstart⟩ := Token.exists_start_eq hu.ne_nil
  rw [hs.span, hu.span, hstop, hstart]
  exact h t ht v (List.mem_of_head? hv)

section

variable {parts : List (Statement × List Token)} {x : Statement × List Token} {t : Token}

theorem mem_parts (hx : x ∈ parts) (ht : t ∈ x.2) : t ∈ parts.flatMap (·.2) :=
  List.mem_flatMap.mpr ⟨x, hx, ht⟩

variable (hspans : Token.Increasing (parts.flatMap (·.2)))
  (hparts : ∀ x ∈ parts, x.1.ConsistsOf x.2)

include hspans hparts

/-- Statements that share tokens among themselves lie one behind the other if the tokens do. -/
theorem pairwise_parts :
    parts.Pairwise fun x y => x.1.span.stop ≤ y.1.span.start :=
  (List.pairwise_flatMap.mp hspans.apart).2.imp_of_mem fun hx hy h =>
    (hparts _ hx).before (hparts _ hy) h

theorem inside_parts (hx : x ∈ parts) (ht : t ∈ x.2) :
    x.1.span.start ≤ t.span.start ∧ t.span.stop ≤ x.1.span.stop := by
  have hincreasing : Token.Increasing x.2 :=
    ⟨fun u hu => hspans.start_le_stop u (mem_parts hx hu),
      (List.pairwise_flatMap.mp hspans.apart).1 x hx⟩
  rw [(hparts x hx).span]
  exact hincreasing.start_extent_le ht

/-- A token that is not empty lies in no statement but its own. -/
theorem eq_of_inside_parts (hx : x ∈ parts) (ht : t ∈ x.2)
    (hnonempty : t.span.start < t.span.stop) {y : Statement × List Token} (hy : y ∈ parts)
    (hinside : y.1.span.start ≤ t.span.start ∧ t.span.stop ≤ y.1.span.stop) : y = x := by
  let Apart (x y : Statement × List Token) : Prop :=
    x.1.span.stop ≤ y.1.span.start ∨ y.1.span.stop ≤ x.1.span.start
  have hsymm : Std.Symm Apart := ⟨fun _ _ h => h.symm⟩
  have hapart : parts.Pairwise Apart := (pairwise_parts hspans hparts).imp Or.inl
  have hself := inside_parts hspans hparts hx ht
  by_contra hne
  rcases hapart.forall hy hx hne with h | h <;> omega

/-- If tokens of a text lie one behind the other, the statements to which they are handed out divide them
among themselves. -/
theorem partition_of_parts {cs : List Char}
    (hnonempty : ∀ t ∈ parts.flatMap (·.2), t.span.start < t.span.stop)
    (htext : ∀ t ∈ parts.flatMap (·.2),
      Text.slice? cs t.span.start t.span.stop = some t.text.toList) :
    Partition cs (parts.flatMap (·.2)) (parts.map (·.1)) where
  ordered := List.pairwise_map.mpr (pairwise_parts hspans hparts)
  nonempty := by
    rw [List.forall_mem_map]
    intro x hx
    obtain ⟨t, ht⟩ := List.exists_mem_of_ne_nil _ (hparts x hx).ne_nil
    have hinside := inside_parts hspans hparts hx ht
    have hpos := hnonempty t (mem_parts hx ht)
    omega
  start := by
    rw [List.forall_mem_map]
    intro x hx
    obtain ⟨t, ht, hstart⟩ := Token.exists_start_eq (hparts x hx).ne_nil
    exact ⟨t, mem_parts hx (List.mem_of_head? ht), by rw [(hparts x hx).span, hstart]⟩
  stop := by
    rw [List.forall_mem_map]
    intro x hx
    obtain ⟨t, ht, hstop⟩ := Token.exists_stop_eq (hparts x hx).ne_nil
    exact ⟨t, mem_parts hx ht, by rw [(hparts x hx).span, hstop]⟩
  inside := by
    intro t ht
    obtain ⟨x, hx, htx⟩ := List.mem_flatMap.mp ht
    refine ⟨x.1, ⟨List.mem_map_of_mem hx, inside_parts hspans hparts hx htx⟩, ?_⟩
    rintro s ⟨hs, hinside⟩
    obtain ⟨y, hy, rfl⟩ := List.mem_map.mp hs
    rw [eq_of_inside_parts hspans hparts hx htx (hnonempty t ht) hy hinside]
  keyword := by
    rw [List.forall_mem_map]
    intro x hx word hword
    rcases (hparts x hx).declared with hother | ⟨keyword, us, hus, hdeclared⟩
    · simp [keyword?, hother] at hword
    · obtain ⟨word', hword', hkeyword⟩ := hdeclared.keyword
      obtain rfl : word' = word := Option.some.inj (hword'.symm.trans hword)
      refine ⟨keyword, mem_parts hx (by simp [hus]), hkeyword, ?_⟩
      rw [(hparts x hx).span, hus]
      rfl
  specifier := by
    rw [List.forall_mem_map]
    intro x hx specifier hspecifier
    rcases (hparts x hx).declared with hother | ⟨keyword, us, hus, hdeclared⟩
    · simp [specifier?, hother] at hspecifier
    · obtain ⟨t, ht, -, hspecifier'⟩ := hdeclared.specifier
      obtain rfl : ⟨t.text, t.span⟩ = specifier := Option.some.inj (hspecifier'.symm.trans hspecifier)
      have htx : t ∈ x.2 := by
        rw [hus]
        exact List.mem_cons_of_mem _ ht
      obtain ⟨hstart, hstop⟩ := inside_parts hspans hparts hx htx
      exact ⟨hstart, hstop, htext t (mem_parts hx htx)⟩

end

end Statement

/-! ## Specifiers -/

/-- The specifier of a statement is one of the strings of the text. -/
theorem Lexed.exists_string_of_mem_statements {text : String} {s : Statement} {specifier : Specifier}
    (hs : s ∈ (Outline.ofTokens (ofText text).tokens).statements)
    (hspecifier : s.specifier? = some specifier) :
    ∃ t ∈ (ofText text).tokens, t.kind = .string ∧ specifier = ⟨t.text, t.span⟩ := by
  obtain ⟨parts, hstatements, htokens, hparts⟩ := Statement.exists_parts_collect []
    (by simpa using increasing_significant text) none 0
  rw [List.nil_append] at htokens
  have hcollect : (Outline.ofTokens (ofText text).tokens).statements = parts.map (·.1) :=
    hstatements.symm
  rw [hcollect] at hs
  obtain ⟨x, hx, rfl⟩ := List.mem_map.mp hs
  rcases (hparts x hx).declared with hother | ⟨keyword, us, hus, hdeclared⟩
  · simp [Statement.specifier?, hother] at hspecifier
  · obtain ⟨t, ht, hkind, hstring⟩ := hdeclared.specifier
    have hmem : t ∈ Outline.significant (ofText text).tokens := by
      rw [← htokens]
      exact Statement.mem_parts hx (by rw [hus]; exact List.mem_cons_of_mem _ ht)
    rw [hstring] at hspecifier
    exact ⟨t, List.mem_of_mem_filter hmem, hkind, (Option.some.inj hspecifier).symm⟩

/-! ## The statements of a text -/

/-- The statements of a text divide its tokens, errors apart, among themselves: they lie one behind the
other, each reaches from a token to a token, and each token lies inside one of them. -/
theorem Outline.partition_statements (text : String) :
    Statement.Partition text.toList (significant (Lexed.ofText text).tokens)
      (ofTokens (Lexed.ofText text).tokens).statements := by
  have hspans := Lexed.increasing_significant text
  obtain ⟨parts, hstatements, hall, hparts⟩ :=
    Statement.exists_parts_collect [] hspans none 0
  have hall : parts.flatMap (·.2) = significant (Lexed.ofText text).tokens := hall
  have hstatements : parts.map (·.1) = (ofTokens (Lexed.ofText text).tokens).statements := hstatements
  rw [← hstatements, ← hall]
  refine Statement.partition_of_parts (hall ▸ hspans) hparts ?_ ?_
  · rw [hall]
    exact fun _ => Lexed.start_lt_stop_of_mem_significant
  · rw [hall]
    intro t ht
    obtain ⟨ht, hsignificant⟩ := List.mem_filter.mp ht
    refine Lexed.slice?_span text ht fun herror => ?_
    simp [Token.isSignificant, herror] at hsignificant

end ModuleBuild
