import Mathlib.Tactic

/-!
# Named pipes

A named pipe with one reader and one writer: what is in it, and which of its ends are open.  It
keeps what was written as long as one end is open; what is left when the second end is closed is
discarded.
-/

namespace Foundation

variable {α : Type*}

/-- A named pipe. -/
structure Fifo (α : Type*) where
  buffer : List α
  /-- The read end is open, or is being opened. -/
  readEnd : Bool
  /-- The write end is open, or is being opened. -/
  writeEnd : Bool
  /-- Nothing is kept when both ends are closed. -/
  discarded : readEnd = false → writeEnd = false → buffer = []

namespace Fifo

/-- The pipe before it is opened. -/
def closed : Fifo α := ⟨[], false, false, fun _ _ => rfl⟩

/-- The read end is opened. -/
def openRead (f : Fifo α) : Fifo α := ⟨f.buffer, true, f.writeEnd, nofun⟩

/-- The write end is opened. -/
def openWrite (f : Fifo α) : Fifo α := ⟨f.buffer, f.readEnd, true, nofun⟩

/-- The read end is closed. -/
def closeRead (f : Fifo α) : Fifo α :=
  ⟨if f.writeEnd then f.buffer else [], false, f.writeEnd, fun _ h => by simp [h]⟩

/-- The write end is closed. -/
def closeWrite (f : Fifo α) : Fifo α :=
  ⟨if f.readEnd then f.buffer else [], f.readEnd, false, fun h _ => by simp [h]⟩

/-- Something is written to the pipe. -/
def write (f : Fifo α) (l : List α) (h : f.readEnd = true) : Fifo α :=
  ⟨f.buffer ++ l, f.readEnd, f.writeEnd, fun hr => absurd (h.symm.trans hr) (by decide)⟩

/-- Something is read from the pipe. -/
def drop (f : Fifo α) (n : ℕ) : Fifo α :=
  ⟨f.buffer.drop n, f.readEnd, f.writeEnd, fun hr hw => by simp [f.discarded hr hw]⟩

end Fifo

end Foundation
