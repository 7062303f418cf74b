import ModuleBuild.Engine.Erasure
import ModuleBuild.Proofs.Token.Places

/-!
# Leaving parts out of a text

A text is cut at the ends of spans, and what lies in the spans is left out. The spans may overlap, so
cutting keeps a cursor; what comes of it can be said without one: a character stays exactly if no span
covers its offset (`without`), and the same holds of every single byte (`LeavesOut`), since spans that
end between characters cover all bytes of a character or none.

Main statements: `Erasure.cut?_eq`, by which cutting succeeds and leaves out what the spans cover; and
`leavesOut_without`, which carries this over to bytes.
-/

namespace ModuleBuild

/-- Whether one of the spans covers the byte `n`. -/
def Span.covered (ss : List Span) (n : Nat) : Bool := ss.any fun s => s.start ≤ n && n < s.stop

theorem Span.covered_iff {ss : List Span} {n : Nat} :
    Span.covered ss n = true ↔ ∃ s ∈ ss, s.Covers n := by
  simp [covered, Covers]

namespace Text

/-! ## Characters that stay -/

/-- What is left of a text that begins at `offset` without the characters at erased offsets. -/
def without (erased : Nat → Bool) (offset : Nat) : List Char → List Char
  | [] => []
  | c :: cs =>
    (if erased offset then [] else [c]) ++ without erased (offset + c.utf8Size) cs

variable {erased erased' : Nat → Bool} {offset : Nat}

@[simp] theorem without_nil : without erased offset [] = [] := rfl

theorem without_append (cs ds : List Char) :
    without erased offset (cs ++ ds) =
      without erased offset cs ++ without erased (offset + byteLength cs) ds := by
  induction cs generalizing offset with
  | nil => rfl
  | cons c cs ih => simp [without, ih, Nat.add_assoc]

/-- Only the offsets of the text matter. -/
theorem without_congr {cs : List Char}
    (h : ∀ n, offset ≤ n → n < offset + byteLength cs → erased n = erased' n) :
    without erased offset cs = without erased' offset cs := by
  induction cs generalizing offset with
  | nil => rfl
  | cons c cs ih =>
    have hpos := c.utf8Size_pos
    rw [byteLength_cons] at h
    rw [without, without, h offset le_rfl (by omega), ih fun n hlow hhigh => h n (by omega) (by omega)]

theorem without_eq_nil {cs : List Char}
    (h : ∀ n, offset ≤ n → n < offset + byteLength cs → erased n = true) :
    without erased offset cs = [] := by
  induction cs generalizing offset with
  | nil => rfl
  | cons c cs ih =>
    have hpos := c.utf8Size_pos
    rw [byteLength_cons] at h
    rw [without, h offset le_rfl (by omega), ih fun n hlow hhigh => h n (by omega) (by omega)]
    rfl

theorem without_eq_self {cs : List Char}
    (h : ∀ n, offset ≤ n → n < offset + byteLength cs → erased n = false) :
    without erased offset cs = cs := by
  induction cs generalizing offset with
  | nil => rfl
  | cons c cs ih =>
    have hpos := c.utf8Size_pos
    rw [byteLength_cons] at h
    rw [without, h offset le_rfl (by omega), ih fun n hlow hhigh => h n (by omega) (by omega)]
    rfl

/-! ## Bytes that stay -/

/-- The bytes of a text. -/
def bytes (cs : List Char) : List UInt8 := cs.flatMap String.utf8EncodeChar

@[simp] theorem bytes_cons (c : Char) (cs : List Char) :
    bytes (c :: cs) = String.utf8EncodeChar c ++ bytes cs := rfl

/-- The bytes of a text are those of its encoding. -/
theorem toUTF8_eq_bytes (text : String) : text.toUTF8.data.toList = bytes text.toList := by
  conv_lhs => rw [← String.ofList_toList (s := text)]
  show (String.ofList text.toList).toByteArray.data.toList = _
  rw [String.toByteArray_ofList, List.utf8Encode, List.data_toByteArray, List.toList_toArray]
  rfl

/-- The second list is what is left of the first, which begins at the given offset, without the bytes at
erased offsets. -/
inductive LeavesOut (erased : Nat → Prop) : Nat → List UInt8 → List UInt8 → Prop where
  | nil (offset : Nat) : LeavesOut erased offset [] []
  | erase {offset : Nat} {b : UInt8} {bs left : List UInt8} (h : erased offset)
    (hrest : LeavesOut erased (offset + 1) bs left) : LeavesOut erased offset (b :: bs) left
  | keep {offset : Nat} {b : UInt8} {bs left : List UInt8} (h : ¬erased offset)
    (hrest : LeavesOut erased (offset + 1) bs left) : LeavesOut erased offset (b :: bs) (b :: left)

theorem LeavesOut.erase_append {erased : Nat → Prop} {offset : Nat} {bs cs left : List UInt8}
    (h : ∀ n, offset ≤ n → n < offset + bs.length → erased n)
    (hrest : LeavesOut erased (offset + bs.length) cs left) :
    LeavesOut erased offset (bs ++ cs) left := by
  induction bs generalizing offset with
  | nil => exact hrest
  | cons b bs ih =>
    rw [List.length_cons] at h hrest
    refine .erase (h offset le_rfl (by omega)) (ih (fun n hlow hhigh => h n (by omega) (by omega)) ?_)
    rwa [Nat.add_assoc, Nat.add_comm 1]

theorem LeavesOut.keep_append {erased : Nat → Prop} {offset : Nat} {bs cs left : List UInt8}
    (h : ∀ n, offset ≤ n → n < offset + bs.length → ¬erased n)
    (hrest : LeavesOut erased (offset + bs.length) cs left) :
    LeavesOut erased offset (bs ++ cs) (bs ++ left) := by
  induction bs generalizing offset with
  | nil => exact hrest
  | cons b bs ih =>
    rw [List.length_cons] at h hrest
    refine .keep (h offset le_rfl (by omega)) (ih (fun n hlow hhigh => h n (by omega) (by omega)) ?_)
    rwa [Nat.add_assoc, Nat.add_comm 1]

/-- Where the bytes of each character are erased together, leaving out characters is leaving out
bytes. -/
theorem leavesOut_without {cs : List Char}
    (h : ∀ before c after, cs = before ++ c :: after → ∀ n, offset + byteLength before ≤ n →
      n < offset + byteLength before + c.utf8Size → erased n = erased (offset + byteLength before)) :
    LeavesOut (fun n => erased n = true) offset (bytes cs) (bytes (without erased offset cs)) := by
  induction cs generalizing offset with
  | nil => exact .nil offset
  | cons c cs ih =>
    have hfirst := h [] c cs rfl
    rw [byteLength_nil, Nat.add_zero] at hfirst
    have hrest : LeavesOut (fun n => erased n = true) (offset + c.utf8Size) (bytes cs)
        (bytes (without erased (offset + c.utf8Size) cs)) := by
      refine ih fun before d after hcs n hlow hhigh => ?_
      have hn := h (c :: before) d after (by rw [hcs, List.cons_append]) n
      rw [byteLength_cons, ← Nat.add_assoc] at hn
      exact hn hlow hhigh
    have hlength := String.length_utf8EncodeChar c
    rw [bytes_cons, without]
    cases herased : erased offset with
    | true =>
      refine .erase_append (fun n hlow hhigh => ?_) (by rwa [hlength])
      rw [hfirst n hlow (by omega), herased]
    | false =>
      refine .keep_append (fun n hlow hhigh => ?_) (by rwa [hlength])
      rw [hfirst n hlow (by omega), herased]
      exact Bool.false_ne_true

end Text

open Text

/-- Spans that end between characters cover the bytes of a character together. -/
theorem Span.covered_eq_of_fits {before after : List Char} {c : Char} {ss : List Span} {n : Nat}
    (h : ∀ s ∈ ss, s.Fits (before ++ c :: after)) (hlow : byteLength before ≤ n)
    (hhigh : n < byteLength before + c.utf8Size) :
    Span.covered ss n = Span.covered ss (byteLength before) := by
  rw [Bool.eq_iff_iff, Span.covered_iff, Span.covered_iff]
  refine exists_congr fun s => and_congr_right fun hs => ?_
  have hstart := (h s hs).start.le_or_ge
  have hstop := (h s hs).stop.le_or_ge
  have hpos := c.utf8Size_pos
  simp only [Span.Covers]
  omega

namespace Erasure

/-! ## Cutting -/

/-- A span that is open at the beginning of a text leaves out what lies before its end. -/
private theorem without_covered_open {s : Span} {ss : List Span} {offset : Nat} {x rest : List Char}
    (hstart : s.start ≤ offset) (hx : offset + byteLength x = max offset s.stop) :
    without (Span.covered (s :: ss)) offset (x ++ rest) =
      without (Span.covered ss) (offset + byteLength x) rest := by
  have hcons : ∀ n, Span.covered (s :: ss) n = ((s.start ≤ n && n < s.stop) || Span.covered ss n) :=
    fun _ => rfl
  rw [without_append, without_eq_nil, List.nil_append]
  · refine without_congr fun n hlow _ => ?_
    have hbehind : ¬n < s.stop := by omega
    rw [hcons]
    simp [hbehind]
  · intro n hlow hhigh
    have hinside : s.start ≤ n ∧ n < s.stop := by omega
    rw [hcons]
    simp [hinside]

/-- What lies before all spans stays. -/
private theorem without_covered_before {ss : List Span} {offset : Nat} {x rest : List Char}
    (h : ∀ s ∈ ss, offset + byteLength x ≤ s.start) :
    without (Span.covered ss) offset (x ++ rest) =
      x ++ without (Span.covered ss) (offset + byteLength x) rest := by
  rw [without_append, without_eq_self]
  intro n hlow hhigh
  rw [← Bool.not_eq_true, Span.covered_iff]
  rintro ⟨s, hs, hcovers⟩
  have hbefore := h s hs
  have hstart := hcovers.1
  omega

/-- Cutting spans that lie in the text, in the order of their beginnings, leaves out what they cover. -/
theorem cut?_eq {ss : List Span} (hsorted : ss.Pairwise fun s u => s.start ≤ u.start)
    {before after : List Char} (hfits : ∀ s ∈ ss, s.Fits (before ++ after)) :
    cut? (before ++ after) (byteLength before) ss =
      some (without (Span.covered ss) (byteLength before) after) := by
  induction ss generalizing before after with
  | nil =>
    have hnone : without (Span.covered []) (byteLength before) after = after :=
      without_eq_self fun _ _ _ => rfl
    rw [cut?, dropBytes?_append, hnone]
  | cons s ss ih =>
    obtain ⟨hle, hsorted⟩ := List.pairwise_cons.mp hsorted
    have hs := hfits s List.mem_cons_self
    have hss : ∀ u ∈ ss, u.Fits (before ++ after) := fun u hu => hfits u (List.mem_cons_of_mem _ hu)
    rw [cut?]
    split
    · next hstart =>
      -- The span begins in the gap that is already made, and can only make it longer.
      obtain ⟨x, rest, rfl, hx⟩ : ∃ x rest, after = x ++ rest ∧
          max (byteLength before) s.stop = byteLength (before ++ x) := by
        by_cases hstop : byteLength before ≤ s.stop
        · rw [Nat.max_eq_right hstop]
          exact hs.stop.exists_append hstop
        · rw [Nat.max_eq_left (by omega)]
          exact ⟨[], after, rfl, by simp⟩
      rw [← List.append_assoc] at hss ⊢
      rw [hx, ih hsorted hss]
      rw [byteLength_append] at hx ⊢
      rw [without_covered_open (Nat.le_of_lt hstart) hx.symm]
    · next hstart =>
      obtain ⟨x, rest, rfl, hx⟩ := hs.start.exists_append (by omega)
      have hstop : IsBoundary ((before ++ x) ++ rest) s.stop := by
        rw [List.append_assoc]
        exact hs.stop
      obtain ⟨y, rest, rfl, hy⟩ := hstop.exists_append (hx ▸ hs.start_le_stop)
      have hslice : slice? (before ++ (x ++ (y ++ rest))) (byteLength before) s.start = some x := by
        rw [hx, byteLength_append]
        exact slice?_append ..
      have hsplit : before ++ (x ++ (y ++ rest)) = before ++ x ++ y ++ rest := by simp
      have hrest : cut? (before ++ (x ++ (y ++ rest))) s.stop ss =
          some (without (Span.covered ss) s.stop rest) := by
        rw [hsplit] at hss ⊢
        rw [hy]
        exact ih hsorted hss
      rw [byteLength_append] at hx
      rw [byteLength_append, byteLength_append] at hy
      rw [hslice, Option.bind_some, hrest, Option.map_some, Option.some.injEq, hy,
        without_covered_before, without_covered_open (by omega) (by omega)]
      intro u hu
      rcases List.mem_cons.mp hu with rfl | hu
      · omega
      · have hbehind := hle u hu
        omega

end Erasure

end ModuleBuild
