import Mathlib.Tactic

/-!
# Flags between an interrupt and a main loop

An interrupt handler sets a flag, and the main loop clears it before it deals with what the flag
stands for.  Interrupts that find the flag set are merged with the one before them.  The counters
belong to no program: they record what has happened, and `account` says that no interrupt is
unaccounted for.
-/

namespace Foundation

/-- A flag, with the numbers of the times it was raised, taken, and raised in vain. -/
structure IrqFlag where
  isSet : Bool
  /-- The interrupts. -/
  raised : ℕ
  /-- How often the main loop cleared the flag when it was set. -/
  taken : ℕ
  /-- The interrupts that found the flag set. -/
  merged : ℕ
  /-- Every interrupt was taken or merged, but for one that is waiting. -/
  account : raised = taken + merged + isSet.toNat

namespace IrqFlag

/-- The flag before the first interrupt. -/
def zero : IrqFlag := ⟨false, 0, 0, 0, rfl⟩

/-- The interrupt handler sets the flag. -/
def raise (f : IrqFlag) : IrqFlag where
  isSet := true
  raised := f.raised + 1
  taken := f.taken
  merged := f.merged + f.isSet.toNat
  account := by
    rw [f.account, Bool.toNat_true]
    omega

/-- The main loop clears the flag. -/
def clear (f : IrqFlag) : IrqFlag where
  isSet := false
  raised := f.raised
  taken := f.taken + f.isSet.toNat
  merged := f.merged
  account := by
    rw [f.account, Bool.toNat_false]
    omega

variable (f : IrqFlag)

@[simp] lemma isSet_raise : f.raise.isSet = true := rfl
@[simp] lemma raised_raise : f.raise.raised = f.raised + 1 := rfl
@[simp] lemma taken_raise : f.raise.taken = f.taken := rfl
@[simp] lemma isSet_clear : f.clear.isSet = false := rfl
@[simp] lemma raised_clear : f.clear.raised = f.raised := rfl
@[simp] lemma merged_clear : f.clear.merged = f.merged := rfl

/-- A flag that is set is taken when it is cleared. -/
lemma taken_clear (h : f.isSet) : f.clear.taken = f.taken + 1 := by
  simp [clear, h]

/-- An interrupt that finds the flag clear is not merged. -/
lemma merged_raise (h : f.isSet = false) : f.raise.merged = f.merged := by
  simp [raise, h]

end IrqFlag

end Foundation
