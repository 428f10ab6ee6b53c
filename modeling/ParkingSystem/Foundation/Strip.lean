import Mathlib.Data.List.DropRight
import Mathlib.Tactic

/-!
# Stripping a list at both ends

`strip p` takes the elements with `p` off both ends of a list.  What it leaves does not change when
such elements are put to an end of the list (`strip_append_left`, `strip_append_right`), and around
an element without `p` both sides are stripped at their outer end only (`strip_append_cons`).

`findFirstNotOf`, `findLastNotOf` and `erase` are the functions of `std::string` with which C++ code
strips; they work with positions, and `none` is `npos`.
-/

namespace Foundation

variable {α : Type*} {p : α → Bool} {s w x y : List α} {c : α}

/-- The list without the elements with `p` at its beginning and at its end. -/
def strip (p : α → Bool) (s : List α) : List α := (s.dropWhile p).rdropWhile p

/-! ## Elements at the ends -/

@[simp] lemma strip_nil (p : α → Bool) : strip p [] = [] := by simp [strip]

/-- A list is stripped of everything if all its elements have `p`. -/
lemma strip_eq_nil (h : ∀ a ∈ s, p a) : strip p s = [] := by
  rw [strip, List.dropWhile_eq_nil_iff.mpr h, List.rdropWhile_nil]

/-- Elements at the end are dropped from the right. -/
lemma rdropWhile_append_of_pos (h : ∀ a ∈ w, p a) (s : List α) :
    (s ++ w).rdropWhile p = s.rdropWhile p := by
  have hrev : ∀ a ∈ w.reverse, p a := fun a ha => h a (List.mem_reverse.mp ha)
  rw [List.rdropWhile, List.reverse_append, List.dropWhile_append_of_pos hrev]
  rfl

/-- Nothing is dropped from the right beyond an element without `p`. -/
lemma rdropWhile_append_cons (hc : p c = false) (x y : List α) :
    (x ++ c :: y).rdropWhile p = x ++ c :: y.rdropWhile p := by
  induction y using List.reverseRecOn with
  | nil => simp [List.rdropWhile_concat_neg, hc]
  | append_singleton y b ih =>
    have hassoc : x ++ c :: (y ++ [b]) = (x ++ c :: y) ++ [b] := by simp
    rw [hassoc, List.rdropWhile_concat, List.rdropWhile_concat]
    split_ifs with hb
    · exact ih
    · exact hassoc.symm

/-- Nothing is dropped from the left beyond an element without `p`. -/
lemma dropWhile_append_cons (hc : p c = false) (x y : List α) :
    (x ++ c :: y).dropWhile p = x.dropWhile p ++ c :: y := by
  induction x with
  | nil => simp [hc]
  | cons a x ih =>
    rw [List.cons_append, List.dropWhile_cons, List.dropWhile_cons]
    split_ifs
    · exact ih
    · rfl

/-- Around an element without `p`, the two sides are stripped at their outer ends. -/
lemma strip_append_cons (hc : p c = false) (x y : List α) :
    strip p (x ++ c :: y) = x.dropWhile p ++ c :: y.rdropWhile p := by
  rw [strip, dropWhile_append_cons hc, rdropWhile_append_cons hc]

/-- Elements in front of a list are stripped. -/
lemma strip_append_left (h : ∀ a ∈ w, p a) (s : List α) : strip p (w ++ s) = strip p s := by
  rw [strip, List.dropWhile_append_of_pos h]
  rfl

/-- Elements behind a list are stripped. -/
lemma strip_append_right (h : ∀ a ∈ w, p a) (s : List α) : strip p (s ++ w) = strip p s := by
  by_cases hs : ∀ a ∈ s, p a
  · rw [strip_append_left hs, strip_eq_nil h, strip_eq_nil hs]
  · obtain ⟨c, hmem, hc⟩ : ∃ c ∈ s, p c = false := by simpa using hs
    obtain ⟨x, y, rfl⟩ := List.append_of_mem hmem
    rw [List.append_assoc, List.cons_append, strip_append_cons hc, strip_append_cons hc,
      rdropWhile_append_of_pos h]

/-- What is dropped from the left would be stripped. -/
@[simp] lemma strip_dropWhile (p : α → Bool) (s : List α) :
    strip p (s.dropWhile p) = strip p s := by
  rw [strip, List.dropWhile_idempotent]
  rfl

/-- What is dropped from the right would be stripped. -/
@[simp] lemma strip_rdropWhile (p : α → Bool) (s : List α) :
    strip p (s.rdropWhile p) = strip p s := by
  have hsplit : s.rdropWhile p ++ s.rtakeWhile p = s := List.rdropWhile_append_rtakeWhile
  conv_rhs => rw [← hsplit]
  exact (strip_append_right (fun a ha => List.mem_rtakeWhile_imp ha) _).symm

/-- Dropping from the left depends on what `p` says of the elements only. -/
lemma dropWhile_congr {q : α → Bool} (h : ∀ a ∈ s, p a = q a) : s.dropWhile p = s.dropWhile q := by
  induction s with
  | nil => rfl
  | cons a s ih =>
    rw [List.forall_mem_cons] at h
    rw [List.dropWhile_cons, List.dropWhile_cons, h.1, ih h.2]

/-- Stripping depends on what `p` says of the elements only. -/
lemma strip_congr {q : α → Bool} (h : ∀ a ∈ s, p a = q a) : strip p s = strip q s := by
  have hright : ∀ a ∈ (s.dropWhile q).reverse, p a = q a := by
    intro a ha
    exact h a ((List.dropWhile_suffix q).mem (List.mem_reverse.mp ha))
  rw [strip, strip, dropWhile_congr h, List.rdropWhile, List.rdropWhile, dropWhile_congr hright]

/-- What is left of a list was in it. -/
lemma mem_of_mem_strip {a : α} (h : a ∈ strip p s) : a ∈ s :=
  (List.dropWhile_suffix p).mem ((List.rdropWhile_prefix p _).mem h)

/-- The first element that is left is the first one without `p`. -/
lemma head?_strip (p : α → Bool) (s : List α) : (strip p s).head? = (s.dropWhile p).head? := by
  unfold strip
  cases h : s.dropWhile p with
  | nil => rw [List.rdropWhile_nil]
  | cons c r =>
    have hc : p c = false := by
      have hhead := List.head?_dropWhile_not p s
      rw [h] at hhead
      simpa using hhead
    rw [← List.nil_append (c :: r), rdropWhile_append_cons hc]
    rfl

/-! ## The functions of `std::string` -/

section StdString

variable [DecidableEq α]

/-- `s.find_first_not_of(set)`. -/
def findFirstNotOf (set s : List α) : Option ℕ := s.findIdx? fun a => a ∉ set

/-- `s.find_last_not_of(set)`. -/
def findLastNotOf (set s : List α) : Option ℕ :=
  (s.reverse.findIdx? fun a => a ∉ set).map fun i => s.length - 1 - i

/-- `s.erase(pos, n)` for a position in the string. -/
def erase (s : List α) (pos : ℕ) (n : Option ℕ) : List α :=
  match n with
  | none => s.take pos
  | some n => s.take pos ++ s.drop (pos + n)

/-- Erasing up to the first element that is not in the set. -/
lemma erase_findFirstNotOf (set s : List α) :
    erase s 0 (findFirstNotOf set s) = s.dropWhile fun a => a ∈ set := by
  unfold findFirstNotOf
  cases h : s.findIdx? fun a => a ∉ set with
  | none =>
    have hall : ∀ a ∈ s, a ∈ set := by simpa using h
    rw [List.dropWhile_eq_nil_iff.mpr (by simpa using hall)]
    rfl
  | some i =>
    obtain ⟨-, hi⟩ := List.findIdx?_eq_some_iff_findIdx_eq.mp h
    simp only [decide_not] at hi
    simp only [erase, List.take_zero, List.nil_append, Nat.zero_add,
      List.dropWhile_eq_drop_findIdx_not, hi]

/-- Erasing from behind the last element that is not in the set on. -/
lemma erase_findLastNotOf (set s : List α) :
    (match findLastNotOf set s with
      | some last => erase s (last + 1) none
      | none => []) = s.rdropWhile fun a => a ∈ set := by
  unfold findLastNotOf
  cases h : s.reverse.findIdx? fun a => a ∉ set with
  | none =>
    have hall : ∀ a ∈ s, a ∈ set := by simpa using h
    exact (List.rdropWhile_eq_nil_iff.mpr (by simpa using hall)).symm
  | some i =>
    obtain ⟨hlt, hi⟩ := List.findIdx?_eq_some_iff_findIdx_eq.mp h
    rw [List.length_reverse] at hlt
    have hlast : s.length - 1 - i + 1 = s.length - i := by omega
    simp only [decide_not] at hi
    simp only [Option.map_some, erase, hlast, List.rdropWhile, List.dropWhile_eq_drop_findIdx_not,
      hi, List.drop_reverse, List.reverse_reverse]

end StdString

end Foundation
