import ParkingSystem.Foundation.Text
import Mathlib.Data.Nat.Digits.Lemmas
import Mathlib.Data.Rat.Floor

/-!
# Fixed-point decimals

`printFixed d q` is what `printf("%.df")` prints for the number `q`: the magnitude is rounded to
`d` decimals, to nearest with ties to even, and written with at least one digit before the point.
`roundTo d q` is the number that this text denotes.  `readDecimal` reads a plain decimal numeral
from the front of a string, as `strtod` does, and `readDecimal_printFixed` says that it reads back
what was printed.
-/

namespace Foundation

/-! ## Rounding -/

/-- The nearest integer, ties to even. -/
def roundHalfEven (q : ℚ) : ℤ :=
  let f := ⌊q⌋
  if q - f < 1 / 2 then f
  else if 1 / 2 < q - f then f + 1
  else if f % 2 = 0 then f else f + 1

/-- The magnitude of `q` in units of `10 ^ (-d)`. -/
def fixedUnits (d : ℕ) (q : ℚ) : ℕ := (roundHalfEven (|q| * 10 ^ d)).toNat

/-- `q` rounded to `d` decimals. -/
def roundTo (d : ℕ) (q : ℚ) : ℚ := (if q < 0 then -1 else 1) * (fixedUnits d q / 10 ^ d)

/-! ## Digits -/

/-- The ASCII digit of a number below ten. -/
def digitByte (n : ℕ) : UInt8 := UInt8.ofNat (48 + n)

/-- Whether a byte is an ASCII digit. -/
def isDigit (b : UInt8) : Bool := 48 ≤ b && b ≤ 57

/-- The decimal digits of `n`, with leading zeros up to the width `w`. -/
def decDigits (w n : ℕ) : Bytes :=
  (Nat.digits 10 n ++ List.replicate (w - (Nat.digits 10 n).length) 0).reverse.map digitByte

/-- The number that a string of digits denotes. -/
def readDigits (s : Bytes) : ℕ := s.foldl (fun n b => 10 * n + (b.toNat - 48)) 0

/-- A digit byte lies in the range of the ASCII digits and has the value it was made from. -/
lemma digitByte_spec : ∀ n < 10, isDigit (digitByte n) = true ∧ (digitByte n).toNat - 48 = n := by
  decide

/-- Every byte of the digits of a number is a digit. -/
lemma isDigit_of_mem_decDigits {w n : ℕ} {b : UInt8} (hb : b ∈ decDigits w n) :
    isDigit b = true := by
  simp only [decDigits, List.mem_map, List.mem_reverse, List.mem_append, List.mem_replicate] at hb
  obtain ⟨k, hk, rfl⟩ := hb
  refine (digitByte_spec k ?_).1
  rcases hk with hk | ⟨-, rfl⟩
  · exact Nat.digits_lt_base (by norm_num) hk
  · norm_num

/-- The digits of a number are at least as many as the width asks for. -/
lemma le_length_decDigits (w n : ℕ) : w ≤ (decDigits w n).length := by
  simp only [decDigits, List.length_map, List.length_reverse, List.length_append,
    List.length_replicate]
  omega

/-- A number with few digits is written with exactly the width asked for. -/
lemma length_decDigits_of_lt {w n : ℕ} (h : n < 10 ^ w) : (decDigits w n).length = w := by
  have hlen : (Nat.digits 10 n).length ≤ w := (Nat.digits_length_le_iff (by norm_num) n).mpr h
  simp only [decDigits, List.length_map, List.length_reverse, List.length_append,
    List.length_replicate]
  omega

/-- Reading the digits of a number gives the number. -/
lemma readDigits_decDigits (w n : ℕ) : readDigits (decDigits w n) = n := by
  have key : ∀ L : List ℕ, (∀ k ∈ L, k < 10) →
      readDigits (L.reverse.map digitByte) = Nat.ofDigits 10 L := by
    intro L hL
    induction L with
    | nil => rfl
    | cons k L ih =>
      have hk := (digitByte_spec k (hL k (by simp))).2
      have ih := ih fun m hm => hL m (by simp [hm])
      simp only [readDigits] at ih ⊢
      rw [List.reverse_cons, List.map_append, List.foldl_append, ih, Nat.ofDigits_cons]
      simp only [List.map_cons, List.map_nil, List.foldl_cons, List.foldl_nil, hk]
      ring
  unfold decDigits
  rw [key]
  · rw [Nat.ofDigits_append_replicate_zero, Nat.ofDigits_digits]
  · intro k hk
    rcases List.mem_append.mp hk with hk | hk
    · exact Nat.digits_lt_base (by norm_num) hk
    · rw [List.eq_of_mem_replicate hk]
      norm_num

/-! ## Printing and reading -/

/-- The minus sign. -/
abbrev minusByte : UInt8 := 45

/-- The decimal point. -/
abbrev pointByte : UInt8 := 46

/-- The text that `printf("%.df", q)` prints. -/
def printFixed (d : ℕ) (q : ℚ) : Bytes :=
  (if q < 0 then [minusByte] else []) ++
    decDigits 1 (fixedUnits d q / 10 ^ d) ++ pointByte :: decDigits d (fixedUnits d q % 10 ^ d)

/-- A plain decimal numeral at the front of a string; what follows it is ignored. -/
def readDecimal (s : Bytes) : Option ℚ :=
  let neg : Bool := s.head? = some minusByte
  let t := if neg then s.tail else s
  let int := t.takeWhile isDigit
  let frac := match t.dropWhile isDigit with
    | [] => []
    | c :: r => if c = pointByte then r.takeWhile isDigit else []
  if int = [] ∧ frac = [] then none
  else some ((if neg then -1 else 1) * (readDigits int + readDigits frac / 10 ^ frac.length))

/-- A printed number consists of digits, a point and, when it is negative, a minus sign. -/
lemma mem_printFixed {d : ℕ} {q : ℚ} {b : UInt8} (hb : b ∈ printFixed d q) :
    (b = minusByte ∧ q < 0) ∨ b = pointByte ∨ isDigit b = true := by
  simp only [printFixed, List.mem_append, List.mem_cons] at hb
  rcases hb with (hb | hb) | rfl | hb
  · split_ifs at hb with hq
    · exact Or.inl ⟨List.mem_singleton.mp hb, hq⟩
    · simp at hb
  · exact Or.inr (Or.inr (isDigit_of_mem_decDigits hb))
  · exact Or.inr (Or.inl rfl)
  · exact Or.inr (Or.inr (isDigit_of_mem_decDigits hb))

/-- Behind its first byte a printed number has no sign. -/
lemma mem_drop_printFixed {d : ℕ} {q : ℚ} {k : ℕ} (hk : 0 < k) {b : UInt8}
    (hb : b ∈ (printFixed d q).drop k) : isDigit b = true ∨ b = pointByte := by
  obtain ⟨k, rfl⟩ := Nat.exists_eq_succ_of_ne_zero hk.ne'
  have hmem : b ∈ decDigits 1 (fixedUnits d q / 10 ^ d) ++
      pointByte :: decDigits d (fixedUnits d q % 10 ^ d) := by
    rw [printFixed, List.append_assoc] at hb
    split_ifs at hb
    · rw [List.singleton_append, List.drop_succ_cons] at hb
      exact List.mem_of_mem_drop hb
    · exact List.mem_of_mem_drop hb
  rcases List.mem_append.mp hmem with h | h
  · exact Or.inl (isDigit_of_mem_decDigits h)
  · rcases List.mem_cons.mp h with h | h
    · exact Or.inr h
    · exact Or.inl (isDigit_of_mem_decDigits h)

/-- What is read without a sign is not negative. -/
lemma readDecimal_nonneg {s : Bytes} (h : s.head? ≠ some minusByte) {q : ℚ}
    (hq : readDecimal s = some q) : 0 ≤ q := by
  simp only [readDecimal, h, decide_false, Bool.false_eq_true, if_false, one_mul] at hq
  split_ifs at hq
  rw [← Option.some.inj hq]
  positivity

/-- A number that is not negative is printed without a sign, and so is every part of the print
from its front. -/
lemma head?_take_printFixed {d : ℕ} {q : ℚ} (hq : 0 ≤ q) (k : ℕ) :
    ((printFixed d q).take k).head? ≠ some minusByte := by
  intro hhead
  have hmem : minusByte ∈ printFixed d q := List.mem_of_mem_take (List.mem_of_head? hhead)
  rcases mem_printFixed hmem with ⟨-, hneg⟩ | h | h
  · exact absurd hq (not_le.mpr hneg)
  · exact absurd h (by decide)
  · exact absurd h (by decide)

/-- Reading back what was printed gives the rounded number. -/
theorem readDecimal_printFixed (d : ℕ) (q : ℚ) :
    readDecimal (printFixed d q) = some (roundTo d q) := by
  set u := fixedUnits d q with hu
  have hpoint : isDigit pointByte = false := by decide
  have hint : ∀ b ∈ decDigits 1 (u / 10 ^ d), isDigit b = true := by
    intro b hb
    exact isDigit_of_mem_decDigits hb
  have hfrac : ∀ b ∈ decDigits d (u % 10 ^ d), isDigit b = true := by
    intro b hb
    exact isDigit_of_mem_decDigits hb
  have hne : decDigits 1 (u / 10 ^ d) ≠ [] := by
    have := le_length_decDigits 1 (u / 10 ^ d)
    exact List.ne_nil_of_length_pos (by omega)
  have hlen : (decDigits d (u % 10 ^ d)).length = d :=
    length_decDigits_of_lt (Nat.mod_lt _ (by positivity))
  -- the sign is read off first, so that the two cases leave the same text
  have hhead : (printFixed d q).head? = some minusByte ↔ q < 0 := by
    by_cases hq : q < 0
    · simp [printFixed, hq]
    · obtain ⟨b, t, hbt⟩ := List.exists_cons_of_ne_nil hne
      have hb : isDigit b = true := hint b (by simp [hbt])
      have hbm : b ≠ minusByte := by
        rintro rfl
        exact absurd hb (by decide)
      simp [printFixed, hq, ← hu, hbt, hbm]
  have htail : (if q < 0 then (printFixed d q).tail else printFixed d q) =
      decDigits 1 (u / 10 ^ d) ++ pointByte :: decDigits d (u % 10 ^ d) := by
    by_cases hq : q < 0 <;> simp [printFixed, hq, ← hu]
  have hvalue : ((u / 10 ^ d : ℕ) : ℚ) + (u % 10 ^ d : ℕ) / 10 ^ d = u / 10 ^ d := by
    have hdm : ((10 ^ d * (u / 10 ^ d) + u % 10 ^ d : ℕ) : ℚ) = u := by rw [Nat.div_add_mod]
    push_cast at hdm
    have hpos : (10 : ℚ) ^ d ≠ 0 := by positivity
    field_simp
    linarith
  unfold readDecimal
  simp only [hhead, decide_eq_true_eq, htail]
  rw [List.takeWhile_append_of_pos hint, List.dropWhile_append_of_pos hint]
  simp only [List.takeWhile_cons, List.dropWhile_cons, hpoint, if_true, List.append_nil,
    Bool.false_eq_true, if_false]
  rw [List.takeWhile_eq_self_iff.mpr hfrac, hlen, readDigits_decDigits, readDigits_decDigits,
    hvalue]
  simp [hne, roundTo, ← hu]

/-! ## Lengths -/

/-- Rounding moves a number by one half at most. -/
lemma abs_roundHalfEven_sub_le (q : ℚ) : |(roundHalfEven q : ℚ) - q| ≤ 1 / 2 := by
  have hle := Int.floor_le q
  have hlt := Int.lt_floor_add_one q
  rw [abs_le]
  unfold roundHalfEven
  simp only
  split_ifs with hlow hhigh
  · constructor <;> linarith
  · push_cast
    constructor <;> linarith
  · constructor <;> linarith
  · push_cast
    constructor <;> linarith

/-- A number with few digits is written with few digits. -/
lemma length_decDigits_le {w k n : ℕ} (hw : w ≤ k) (h : n < 10 ^ k) :
    (decDigits w n).length ≤ k := by
  have hlen : (Nat.digits 10 n).length ≤ k := (Nat.digits_length_le_iff (by norm_num) n).mpr h
  simp only [decDigits, List.length_map, List.length_reverse, List.length_append,
    List.length_replicate]
  omega

/-- The length of a printed number. -/
lemma length_printFixed_le {d k : ℕ} (hk : 0 < k) {q : ℚ} (h : |q| ≤ 10 ^ k - 1) :
    (printFixed d q).length ≤ k + d + 2 := by
  have hpow : (1 : ℚ) ≤ 10 ^ d := one_le_pow₀ (by norm_num)
  have hround := (abs_le.mp (abs_roundHalfEven_sub_le (|q| * 10 ^ d))).2
  have hscaled : |q| * 10 ^ d ≤ (10 ^ k - 1) * 10 ^ d := by gcongr
  have hlt : (roundHalfEven (|q| * 10 ^ d) : ℚ) < 10 ^ (k + d) := by
    rw [pow_add]
    linarith
  have hunits : fixedUnits d q < 10 ^ (k + d) := by
    unfold fixedUnits
    have : roundHalfEven (|q| * 10 ^ d) < ((10 ^ (k + d) : ℕ) : ℤ) := by
      exact_mod_cast hlt
    have hpos : 0 < 10 ^ (k + d) := by positivity
    omega
  have hint : (decDigits 1 (fixedUnits d q / 10 ^ d)).length ≤ k :=
    length_decDigits_le hk (Nat.div_lt_of_lt_mul (by rwa [← pow_add, Nat.add_comm]))
  have hfrac : (decDigits d (fixedUnits d q % 10 ^ d)).length = d :=
    length_decDigits_of_lt (Nat.mod_lt _ (by positivity))
  unfold printFixed
  split_ifs <;> simp only [List.length_append, List.length_cons, List.length_nil, hfrac] <;> omega

end Foundation
