import Mathlib.Tactic

/-!
# Ring buffers

A writer puts the item of number `k` into slot `k % N` of a buffer with `N` slots, and a reader
takes it from there.  `Window N slots log lo hi` says that the slots still hold the items of the
numbers from `lo` up to `hi`.  A write to the slot of number `hi` keeps the window as long as it
has fewer than `N` items: then no item of the window lies in that slot.
-/

namespace Foundation

variable {α : Type*} {N lo lo' hi : ℕ} {slots log : List α} {x : α}

/-- The slots hold the items of the log with the numbers from `lo` up to `hi`. -/
def Window (N : ℕ) (slots log : List α) (lo hi : ℕ) : Prop :=
  ∀ k, lo ≤ k → k < hi → slots[k % N]? = log[k]?

/-- Numbers that are less than `N` apart have different slots. -/
lemma mod_ne_mod {k : ℕ} (hk : k < hi) (hlt : hi - k < N) : k % N ≠ hi % N := by
  intro heq
  have hdvd : N ∣ hi - k := (Nat.modEq_iff_dvd' hk.le).mp heq
  exact absurd (Nat.le_of_dvd (by omega) hdvd) (by omega)

namespace Window

/-- A window without items. -/
lemma empty (h : hi ≤ lo) : Window N slots log lo hi := fun _ hlo hhi => by omega

/-- The reader may pass over items. -/
lemma mono (h : Window N slots log lo hi) (hle : lo ≤ lo') : Window N slots log lo' hi := by
  intro k hlo hhi
  exact h k (hle.trans hlo) hhi

/-- **A write behind a window that is not full** keeps its items. -/
lemma set (h : Window N slots log lo hi) (hlt : hi - lo < N) :
    Window N (slots.set (hi % N) x) log lo hi := by
  intro k hlo hhi
  rw [List.getElem?_set_ne (mod_ne_mod hhi (by omega)).symm]
  exact h k hlo hhi

/-- The window grows by an item that stands in its slot. -/
lemma concat (h : Window N slots log lo hi) (hlog : log.length = hi)
    (hslot : slots[hi % N]? = some x) : Window N slots (log ++ [x]) lo (hi + 1) := by
  intro k hlo hhi
  rcases Nat.lt_succ_iff_lt_or_eq.mp hhi with hk | rfl
  · rw [List.getElem?_append_left (by omega)]
    exact h k hlo hk
  · rw [hslot, ← hlog, List.getElem?_concat_length]

/-- **A write to a full ring** replaces the oldest item: the slots hold the last items of the
log. -/
lemma write_last (h : Window N slots log (hi - N) hi) (hlog : log.length = hi) (hN : 0 < N)
    (hslots : slots.length = N) :
    Window N (slots.set (hi % N) x) (log ++ [x]) (hi + 1 - N) (hi + 1) := by
  have hroom : Window N (slots.set (hi % N) x) log (hi + 1 - N) hi :=
    (h.mono (by omega)).set (by omega)
  refine hroom.concat hlog (List.getElem?_set_self ?_)
  rw [hslots]
  exact Nat.mod_lt _ hN

end Window

/-- The largest number below `hi` with the slot of `k`. -/
def latest (N hi k : ℕ) : ℕ := k + N * ((hi - 1 - k) / N)

@[simp] lemma latest_mod (N hi k : ℕ) : latest N hi k % N = k % N := by simp [latest]

lemma latest_lt {k : ℕ} (hk : k < hi) : latest N hi k < hi := by
  have := Nat.mul_div_le (hi - 1 - k) N
  unfold latest
  omega

lemma le_latest_add {k : ℕ} (hN : 0 < N) (hk : k < hi) : hi ≤ latest N hi k + N := by
  have := Nat.lt_mul_div_succ (hi - 1 - k) hN
  rw [Nat.mul_add, Nat.mul_one] at this
  unfold latest
  omega

/-- What a reader finds in the slot of a number: the last item written there. -/
lemma Window.getElem?_slot (h : Window N slots log (hi - N) hi) (hN : 0 < N) {k : ℕ} (hk : k < hi) :
    slots[k % N]? = log[latest N hi k]? := by
  have hle := le_latest_add hN hk
  rw [← latest_mod N hi k, h (latest N hi k) (by omega) (latest_lt hk)]

end Foundation
