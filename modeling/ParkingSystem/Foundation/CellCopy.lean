import Mathlib.Tactic

/-!
# Values that are copied cell by cell

A value that is too large for one access to memory lies in several cells, and is copied by one
access for each of them, in an order that is not fixed.  `Layout` says how values lie in cells, and
`Copying left src dst` that a copy from `src` to `dst` has only the cells of `left` still to do.
What a reader decodes is a value that was there as a whole if nobody writes to the cells meanwhile;
otherwise it may be any mixture.
-/

namespace Foundation

variable {α ι β : Type*}

/-- How values lie in memory. -/
structure Layout (α ι β : Type*) where
  /-- The contents of the cells. -/
  encode : α → ι → β
  /-- The value that a reader makes of the cells. -/
  decode : (ι → β) → α
  decode_encode (a : α) : decode (encode a) = a

/-- A copy in which the cells of `left` are still to be copied. -/
def Copying (left : Finset ι) (src dst : ι → β) : Prop := ∀ i ∉ left, dst i = src i

namespace Copying

variable {left : Finset ι} {src dst : ι → β}

/-- A copy that has just been started. -/
lemma start [Fintype ι] (src dst : ι → β) : Copying Finset.univ src dst :=
  fun i hi => absurd (Finset.mem_univ i) hi

/-- One more cell is copied. -/
lemma copyCell [DecidableEq ι] (h : Copying left src dst) (i : ι) :
    Copying (left.erase i) src (Function.update dst i (src i)) := by
  intro j hj
  by_cases hji : j = i
  · subst hji
    rw [Function.update_self]
  · rw [Function.update_of_ne hji]
    exact h j fun hleft => hj (Finset.mem_erase.mpr ⟨hji, hleft⟩)

/-- A copy that is complete. -/
lemma eq (h : Copying ∅ src dst) : dst = src := funext fun i => h i (Finset.notMem_empty i)

end Copying

end Foundation
