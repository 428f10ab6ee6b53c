import Mathlib.Tactic

/-!
# Reader-writer locks

A reader-writer lock counts its readers and knows whether there is a writer; that a writer is alone
is a field of the structure.  A call that would block is not possible in the state, so it has no
result.
-/

namespace Foundation

/-- A reader-writer lock. -/
structure RwLock where
  readers : ℕ
  writer : Bool
  /-- A writer is alone. -/
  exclusive : writer = true → readers = 0
deriving DecidableEq

namespace RwLock

/-- A lock that nobody holds. -/
def free : RwLock := ⟨0, false, by simp⟩

/-- Take the lock as a reader; this blocks as long as there is a writer. -/
def rdlock (l : RwLock) : Option RwLock :=
  if l.writer then none else some ⟨l.readers + 1, false, by simp⟩

/-- Take the lock as the writer; this blocks as long as anybody else holds it. -/
def wrlock (l : RwLock) : Option RwLock :=
  if l.writer ∨ l.readers ≠ 0 then none else some ⟨0, true, fun _ => rfl⟩

/-- Give the lock back. -/
def unlock (l : RwLock) : RwLock :=
  if l.writer then free else ⟨l.readers - 1, false, by simp⟩

@[simp] lemma rdlock_free : free.rdlock = some ⟨1, false, by simp⟩ := rfl

@[simp] lemma wrlock_free : free.wrlock = some ⟨0, true, fun _ => rfl⟩ := rfl

@[simp] lemma unlock_reader : (⟨1, false, by simp⟩ : RwLock).unlock = free := rfl

@[simp] lemma unlock_writer : (⟨0, true, fun _ => rfl⟩ : RwLock).unlock = free := rfl

end RwLock

end Foundation
