import ParkingSystem.Foundation.CInt
import ParkingSystem.Foundation.Decimal

/-!
# Integers as text

`printInt n` is what `printf("%d")` prints for `n`, and `scanInt s` what `scanf("%d")` stores of a
text: white space is skipped, a sign may follow, and then the longest row of digits is taken.  The
number is brought into the range of a `long` and stored in an `int`.  `scanInt_printInt` says that
an `int` is read back from what was printed, whatever stands behind it.
-/

namespace Foundation

/-- `isspace` in the C locale. -/
def isspace (b : UInt8) : Bool := b = 32 || (9 ≤ b && b ≤ 13)

/-- The plus sign. -/
abbrev plusByte : UInt8 := 43

/-- What `strtol` makes of a number out of the range of a `long`. -/
def clampLong (n : ℤ) : ℤ := max (-2 ^ 63) (min n (2 ^ 63 - 1))

/-- The text that `printf("%d", n)` prints. -/
def printInt (n : ℤ) : Bytes := (if n < 0 then [minusByte] else []) ++ decDigits 1 n.natAbs

/-- The `int` that `scanf("%d")` reads from the front of a text, `none` when there is none. -/
def scanInt (s : Bytes) : Option ℤ :=
  let t := s.dropWhile isspace
  let neg : Bool := t.head? = some minusByte
  let u := if neg ∨ t.head? = some plusByte then t.tail else t
  let digits := u.takeWhile isDigit
  if digits = [] then none
  else some (wrapSigned 32 (clampLong ((if neg then -1 else 1) * readDigits digits)))

/-- The number at the front of a text, as `strtol` finds it and before it is brought into the range
of a `long`. -/
def strtol (s : Bytes) : Option ℤ :=
  let t := s.dropWhile isspace
  let neg : Bool := t.head? = some minusByte
  let u := if neg ∨ t.head? = some plusByte then t.tail else t
  let digits := u.takeWhile isDigit
  if digits = [] then none else some ((if neg then -1 else 1) * readDigits digits)

/-- An `int` survives the way through `long`. -/
lemma wrapSigned_clampLong {n : ℤ} (hlo : -2 ^ 31 ≤ n) (hhi : n < 2 ^ 31) :
    wrapSigned 32 (clampLong n) = n := by
  have hclamp : clampLong n = n := by
    unfold clampLong
    omega
  rw [hclamp]
  apply Int.bmod_eq_of_le_mul_two <;> norm_num <;> omega

/-- The digits of a number, taken from the front of a text that goes on with something else. -/
lemma takeWhile_isDigit_decDigits (w n : ℕ) {rest : Bytes}
    (hrest : ∀ b ∈ rest.head?, isDigit b = false) :
    (decDigits w n ++ rest).takeWhile isDigit = decDigits w n := by
  rw [List.takeWhile_append_of_pos fun b hb => isDigit_of_mem_decDigits hb]
  cases rest with
  | nil => simp
  | cons b rest => simp [hrest b rfl]

/-- A digit is neither white space nor a sign. -/
lemma isspace_eq_false_of_isDigit {b : UInt8} (h : isDigit b = true) :
    isspace b = false ∧ b ≠ minusByte ∧ b ≠ plusByte := by
  simp only [isDigit, Bool.and_eq_true, decide_eq_true_eq, UInt8.le_iff_toNat_le,
    UInt8.reduceToNat] at h
  refine ⟨?_, ?_, ?_⟩
  · simp only [isspace, Bool.or_eq_false_iff, Bool.and_eq_false_iff, decide_eq_false_iff_not,
      UInt8.le_iff_toNat_le, UInt8.reduceToNat, ← UInt8.toNat_inj]
    omega
  · rintro rfl
    exact absurd h.1 (by decide)
  · rintro rfl
    exact absurd h.1 (by decide)

/-- **A number is read back from its text.** -/
theorem strtol_printInt (n : ℤ) {rest : Bytes} (hrest : ∀ b ∈ rest.head?, isDigit b = false) :
    strtol (printInt n ++ rest) = some n := by
  have hlen := le_length_decDigits 1 n.natAbs
  obtain ⟨d, ds, hdigits⟩ : ∃ d ds, decDigits 1 n.natAbs = d :: ds :=
    List.exists_cons_of_length_pos (by omega)
  have hd : isDigit d = true := isDigit_of_mem_decDigits (by rw [hdigits]; simp)
  obtain ⟨hspace, hminus, hplus⟩ := isspace_eq_false_of_isDigit hd
  have htake := takeWhile_isDigit_decDigits 1 n.natAbs hrest
  have hread := readDigits_decDigits 1 n.natAbs
  by_cases hn : n < 0
  · have hneg : printInt n ++ rest = minusByte :: (decDigits 1 n.natAbs ++ rest) := by
      simp [printInt, hn]
    have hskip : (minusByte :: (decDigits 1 n.natAbs ++ rest)).dropWhile isspace =
        minusByte :: (decDigits 1 n.natAbs ++ rest) := by
      rw [List.dropWhile_cons_of_neg (by decide)]
    have hvalue : (-1 : ℤ) * (n.natAbs : ℤ) = n := by omega
    have hne : decDigits 1 n.natAbs ≠ [] := by simp [hdigits]
    simp only [strtol, hneg, hskip, List.head?_cons, List.tail_cons, true_or, if_true,
      decide_true, htake, hread, hvalue, hne, if_false]
  · have hpos : printInt n ++ rest = d :: (ds ++ rest) := by
      simp [printInt, hn, hdigits]
    have hskip : (d :: (ds ++ rest)).dropWhile isspace = d :: (ds ++ rest) := by
      simp [hspace]
    have hvalue : |n| = n := abs_of_nonneg (by omega)
    rw [hdigits, List.cons_append] at htake
    rw [hdigits] at hread
    simp [strtol, hpos, hskip, hminus, hplus, htake, hread, hvalue]

/-- What `scanf("%d")` stores is what `strtol` finds, as an `int`. -/
lemma scanInt_eq_strtol (s : Bytes) :
    scanInt s = (strtol s).map fun n => wrapSigned 32 (clampLong n) := by
  simp only [scanInt, strtol]
  split_ifs <;> rfl

/-- **An `int` is read back from its text.** -/
theorem scanInt_printInt {n : ℤ} (hlo : -2 ^ 31 ≤ n) (hhi : n < 2 ^ 31) {rest : Bytes}
    (hrest : ∀ b ∈ rest.head?, isDigit b = false) : scanInt (printInt n ++ rest) = some n := by
  rw [scanInt_eq_strtol, strtol_printInt n hrest, Option.map_some, wrapSigned_clampLong hlo hhi]

/-! ## `atoi` and `std::stoi` -/

/-- `atoi`: the result of `strtol` as an `int`, and zero when there is no number. -/
def atoi (s : Bytes) : ℤ := ((strtol s).map fun n => wrapSigned 32 (clampLong n)).getD 0

/-- `std::stoi`, where `none` is an exception: there is no number, or it is no `int`. -/
def stoi (s : Bytes) : Option ℤ := (strtol s).filter fun n => -2 ^ 31 ≤ n ∧ n < 2 ^ 31

/-- What `std::stoi` accepts, `atoi` reads as the same number. -/
lemma atoi_of_stoi {s : Bytes} {n : ℤ} (h : stoi s = some n) : atoi s = n := by
  obtain ⟨hread, hrange⟩ := Option.filter_eq_some_iff.mp h
  rw [decide_eq_true_eq] at hrange
  rw [atoi, hread]
  exact wrapSigned_clampLong hrange.1 hrange.2

end Foundation
