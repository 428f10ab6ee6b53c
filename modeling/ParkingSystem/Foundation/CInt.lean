import Mathlib.Tactic

/-!
# Signed integers of C

A signed integer of `w` bits that wraps around holds the balanced residue modulo `2 ^ w` of what it
is given.  The remainder of C is `Int.tmod`: it has the sign of the dividend, so a counter that has
wrapped around is no longer a source of array indices.
-/

namespace Foundation

variable {w k N : ℕ}

/-- The value of a signed integer of `w` bits that is given `x`. -/
def wrapSigned (w : ℕ) (x : ℤ) : ℤ := x.bmod (2 ^ w)

/-- A number in range is held as it is. -/
lemma wrapSigned_natCast (h : k < 2 ^ w) : wrapSigned (w + 1) k = k := by
  have hk : (k : ℤ) < 2 ^ w := by exact_mod_cast h
  have hpow : ((2 ^ (w + 1) : ℕ) : ℤ) = 2 * 2 ^ w := by push_cast; ring
  apply Int.bmod_eq_of_le_mul_two <;> rw [hpow] <;> linarith

/-- The first number out of range becomes the least one. -/
lemma wrapSigned_two_pow (w : ℕ) : wrapSigned (w + 1) (2 ^ w) = -2 ^ w := by
  have hpos : (0 : ℤ) < 2 ^ w := by positivity
  have hpow : ((2 ^ (w + 1) : ℕ) : ℤ) = 2 * 2 ^ w := by push_cast; ring
  rw [wrapSigned, Int.bmod_eq_iff (by positivity), hpow]
  exact ⟨by omega, by omega, ⟨-1, by ring⟩⟩

/-- The remainder of a number that is not negative. -/
lemma natCast_tmod (k N : ℕ) : (k : ℤ).tmod N = (k % N : ℕ) := (Int.ofNat_tmod k N).symm

/-- **Which remainders are indices** of an array with `N` elements: those of negative numbers only
if they are multiples of `N`. -/
lemma tmod_mem_range_iff (hN : 0 < N) (x : ℤ) :
    0 ≤ x.tmod N ∧ x.tmod N < N ↔ 0 ≤ x ∨ (N : ℤ) ∣ x := by
  have hpos : (0 : ℤ) < N := by exact_mod_cast hN
  constructor
  · rintro ⟨hge, -⟩
    rcases lt_or_ge x 0 with hneg | hx
    · right
      have hle : x.tmod N ≤ 0 := by
        have := Int.tmod_nonneg (N : ℤ) (neg_nonneg.mpr hneg.le)
        rw [Int.neg_tmod] at this
        omega
      exact Int.dvd_of_tmod_eq_zero (le_antisymm hle hge)
    · exact .inl hx
  · rintro (hx | hdvd)
    · exact ⟨Int.tmod_nonneg _ hx, Int.tmod_lt_of_pos _ hpos⟩
    · rw [Int.tmod_eq_zero_of_dvd hdvd]
      exact ⟨le_rfl, hpos⟩

end Foundation
