/-!
# Spans

A span is a range of byte offsets in a source text. Nothing forces `start ≤ stop`: a span only says
where something was found, and `merge` is defined on the two ends separately.
-/

namespace ModuleBuild

/-- A range of byte offsets, with the byte at `stop` left out. -/
structure Span where
  /-- The offset of the first byte. -/
  start : Nat := 0
  /-- The offset behind the last byte. -/
  stop : Nat := 0
  deriving DecidableEq, Repr, Inhabited

namespace Span

/-- The least span that covers both. -/
def merge (a b : Span) : Span := ⟨min a.start b.start, max a.stop b.stop⟩

theorem merge_comm (a b : Span) : a.merge b = b.merge a := by
  simp [merge, Nat.min_comm, Nat.max_comm]

theorem merge_assoc (a b c : Span) : (a.merge b).merge c = a.merge (b.merge c) := by
  simp [merge, Nat.min_assoc, Nat.max_assoc]

@[simp] theorem merge_self (a : Span) : a.merge a = a := by
  simp [merge]

end Span

end ModuleBuild
