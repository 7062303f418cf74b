import ModuleBuild.FileTree

/-!
# Writers and sinks

A report goes to a writer, which takes texts and may fail at any of them. A sink is a writer that
keeps the bytes. It may have a capacity: it then takes exactly that many bytes over its whole life,
and a write that goes beyond fails after the bytes that fit. Writing nothing never fails.

Main statement: `write_error_iff`, by which a write fails exactly if it goes beyond the capacity.
-/

namespace ModuleBuild

/-- Something that takes texts. -/
class Writer (W : Type) where
  /-- Writes a text: the writer behind it, and whether all of it was taken. -/
  write : W → String → W × Except IoError Unit

/-- A writer that keeps the bytes. -/
structure Sink where
  /-- How many bytes it takes over its whole life; without a capacity it takes all. -/
  capacity : Option Nat := none
  /-- The bytes it has taken. -/
  bytes : ByteArray := ByteArray.empty

namespace Sink

/-- Writes a text: the sink behind it, and whether all of it was taken. -/
def write (s : Sink) (text : String) : Sink × Except IoError Unit :=
  let new := text.toUTF8
  match s.capacity with
  | none => ({ s with bytes := s.bytes ++ new }, .ok ())
  | some capacity =>
    let room := capacity - s.bytes.size
    if new.size ≤ room then ({ s with bytes := s.bytes ++ new }, .ok ())
    else ({ s with bytes := s.bytes ++ new.extract 0 room }, .error .full)

/-- How many more bytes the sink takes, if there is a limit. -/
def room? (s : Sink) : Option Nat := s.capacity.map (· - s.bytes.size)

/-- A write fails exactly if its text is longer than the room that is left. -/
theorem write_error_iff (s : Sink) (text : String) :
    (s.write text).2 = .error .full ↔ ∃ room, s.room? = some room ∧ room < text.toUTF8.size := by
  unfold write room?
  cases s.capacity with
  | none => simp
  | some capacity =>
    dsimp only
    split
    · next h => simpa using h
    · next h => simpa using h

/-- A write does not change the capacity. -/
theorem capacity_write (s : Sink) (text : String) : (s.write text).1.capacity = s.capacity := by
  unfold write
  split
  · next h => exact h.symm ▸ rfl
  · next h => dsimp only; split <;> exact h.symm ▸ rfl

/-- The bytes behind the first `n` that the sink has taken. -/
def bytesFrom (s : Sink) (n : Nat) : ByteArray := s.bytes.extract n s.bytes.size

end Sink

instance : Writer Sink := ⟨Sink.write⟩

end ModuleBuild
