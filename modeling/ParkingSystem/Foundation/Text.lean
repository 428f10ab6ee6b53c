import Mathlib.Data.List.TakeWhile
import Mathlib.Tactic

/-!
# Byte strings, C strings and fixed-size character arrays

Byte strings are lists of `UInt8`.  `cutAt` is the search that `strchr`, `std::string::find` and
`std::getline` share: it splits a list at the first occurrence of a delimiter.  `cstr` reads a C
string out of a byte list, and `CharBuf n` is a `char[n]` that is known to hold a terminator, so
that reading a string out of it never runs over its end.  `strncpy` and `snprintf` are the two
library calls that write such arrays.
-/

namespace Foundation

/-- A byte string. -/
abbrev Bytes := List UInt8

/-- The bytes of an ASCII text. -/
def ascii (s : String) : Bytes := s.toList.map Char.toUInt8

/-! ## Cutting at the first occurrence -/

section Cut

variable {α : Type*} [DecidableEq α]

/-- Cut a list at its first `d`: what stands before it and what stands after it. -/
def cutAt (d : α) : List α → Option (List α × List α)
  | [] => none
  | c :: cs => if c = d then some ([], cs) else (cutAt d cs).map fun p => (c :: p.1, p.2)

/-- A list without the delimiter is not cut. -/
lemma cutAt_eq_none_iff {d : α} {s : List α} : cutAt d s = none ↔ d ∉ s := by
  induction s with
  | nil => simp [cutAt]
  | cons c cs ih =>
    by_cases h : c = d
    · simp [cutAt, h]
    · simp [cutAt, h, ih, Ne.symm h]

/-- The part before the cut holds no delimiter, and the parts and the delimiter make up the list. -/
lemma cutAt_eq_some_iff {d : α} {s a b : List α} :
    cutAt d s = some (a, b) ↔ s = a ++ d :: b ∧ d ∉ a := by
  induction s generalizing a with
  | nil => simp [cutAt]
  | cons c cs ih =>
    by_cases h : c = d
    · subst h
      cases a with
      | nil => simp [cutAt, eq_comm]
      | cons x a =>
        simp only [cutAt, if_true, List.cons_append, List.mem_cons, not_or]
        constructor
        · intro hc; cases hc
        · rintro ⟨hc, hx, -⟩
          exact absurd (List.cons.inj hc).1 hx
    · cases a with
      | nil => simp [cutAt, h]
      | cons x a =>
        simp only [cutAt, h, if_false, Option.map_eq_some_iff, Prod.exists, Prod.mk.injEq,
          List.cons_append, List.cons.injEq, List.mem_cons, not_or]
        constructor
        · rintro ⟨a', b', hcut, ⟨rfl, rfl⟩, rfl⟩
          obtain ⟨rfl, hd⟩ := ih.mp hcut
          exact ⟨⟨rfl, rfl⟩, Ne.symm h, hd⟩
        · rintro ⟨⟨rfl, hcs⟩, -, hd⟩
          exact ⟨a, b, ih.mpr ⟨hcs, hd⟩, ⟨rfl, rfl⟩, rfl⟩

/-- Cutting at a delimiter that the first part does not contain recovers the two parts. -/
@[simp] lemma cutAt_append {d : α} {a : List α} (h : d ∉ a) (b : List α) :
    cutAt d (a ++ d :: b) = some (a, b) :=
  cutAt_eq_some_iff.mpr ⟨rfl, h⟩

/-- There is one way to cut a list at its first delimiter. -/
lemma append_cons_inj {d : α} {a a' b b' : List α} (h : a ++ d :: b = a' ++ d :: b')
    (ha : d ∉ a) (ha' : d ∉ a') : a = a' ∧ b = b' := by
  have hcut := congrArg (cutAt d) h
  rw [cutAt_append ha, cutAt_append ha', Option.some.injEq, Prod.mk.injEq] at hcut
  exact hcut

/-- The part before the cut is already found in the first `k` elements, unless the first delimiter
stands behind them. -/
lemma cutAt_take_fst {d : α} {s : List α} {k : ℕ} (h : d ∉ s.drop k) :
    (cutAt d (s.take k)).map Prod.fst = (cutAt d s).map Prod.fst := by
  cases hcut : cutAt d s with
  | none =>
    have htake : d ∉ s.take k := fun hmem => cutAt_eq_none_iff.mp hcut (List.mem_of_mem_take hmem)
    rw [cutAt_eq_none_iff.mpr htake]
  | some p =>
    obtain ⟨a, b⟩ := p
    obtain ⟨rfl, ha⟩ := cutAt_eq_some_iff.mp hcut
    have hlt : a.length < k := by
      by_contra hle
      refine h (List.mem_drop_iff_getElem.mpr ⟨a.length - k, by simp; omega, ?_⟩)
      simp [Nat.add_sub_cancel' (not_lt.mp hle)]
    obtain ⟨m, rfl⟩ := Nat.exists_eq_add_of_lt hlt
    rw [Nat.add_assoc, List.take_length_add_append, List.take_succ_cons, cutAt_append ha]
    rfl

end Cut

/-! ## C strings -/

/-- The C string at the start of a byte list: the bytes before the first NUL. -/
def cstr (s : Bytes) : Bytes := s.takeWhile (· ≠ 0)

/-- A C string holds no NUL. -/
lemma zero_notMem_cstr (s : Bytes) : (0 : UInt8) ∉ cstr s := by
  intro h
  simpa using List.mem_takeWhile_imp h

/-- A byte list without NUL is its own C string. -/
@[simp] lemma cstr_eq_self {s : Bytes} (h : (0 : UInt8) ∉ s) : cstr s = s := by
  unfold cstr
  rw [List.takeWhile_eq_self_iff]
  intro x hx
  simpa using ne_of_mem_of_not_mem hx h

/-- Reading a C string stops at a NUL put behind it. -/
lemma cstr_append_zero {s : Bytes} (h : (0 : UInt8) ∉ s) (t : Bytes) : cstr (s ++ 0 :: t) = s := by
  unfold cstr
  rw [List.takeWhile_append_of_pos, List.takeWhile_cons]
  · simp
  · intro x hx
    simpa using ne_of_mem_of_not_mem hx h

/-- A C string is a prefix of the bytes it is read from. -/
lemma cstr_isPrefix (s : Bytes) : cstr s <+: s := List.takeWhile_prefix _

/-- A C string never has more bytes than the list it is read from. -/
lemma cstr_length_le (s : Bytes) : (cstr s).length ≤ s.length := (cstr_isPrefix s).length_le

/-- Cutting a byte list off cuts its C string off. -/
lemma cstr_take (s : Bytes) (k : ℕ) : cstr (s.take k) = (cstr s).take k :=
  List.take_takeWhile.symm

/-! ## Character arrays -/

/-- A `char[n]` that holds a terminated C string. -/
structure CharBuf (n : ℕ) where
  /-- The bytes of the array. -/
  bytes : Bytes
  /-- The array has its declared size. -/
  length_eq : bytes.length = n
  /-- The array holds a terminator. -/
  terminated : (0 : UInt8) ∈ bytes
deriving DecidableEq

namespace CharBuf

variable {n : ℕ}

/-- The C string held by the array. -/
def str (b : CharBuf n) : Bytes := cstr b.bytes

/-- An array is determined by its bytes. -/
lemma ext_bytes {a b : CharBuf n} (h : a.bytes = b.bytes) : a = b := by
  cases a
  cases b
  exact (mk.injEq ..).mpr h

/-- The string held by a character array contains no NUL. -/
lemma zero_notMem_str (b : CharBuf n) : (0 : UInt8) ∉ b.str := zero_notMem_cstr _

/-- The string held by a character array is shorter than the array. -/
lemma str_length_lt (b : CharBuf n) : b.str.length < n := by
  have hle : b.str.length ≤ b.bytes.length := cstr_length_le _
  apply lt_of_le_of_ne (hle.trans_eq b.length_eq)
  intro h
  have heq : b.str = b.bytes := (cstr_isPrefix _).eq_of_length (by rw [b.length_eq]; exact h)
  exact b.zero_notMem_str (heq ▸ b.terminated)

end CharBuf

/-- `strncpy(buf, s, n - 1)` into a zeroed `char buf[n]`; `snprintf(buf, n, "%s", s)` writes the
same bytes. -/
def strncpy (n : ℕ) [NeZero n] (s : Bytes) : CharBuf n where
  bytes := (cstr s).take (n - 1) ++ List.replicate (n - ((cstr s).take (n - 1)).length) 0
  length_eq := by
    have hn : 0 < n := Nat.pos_of_ne_zero (NeZero.ne n)
    simp only [List.length_append, List.length_replicate, List.length_take]
    omega
  terminated := by
    have hn : 0 < n := Nat.pos_of_ne_zero (NeZero.ne n)
    rw [List.mem_append]
    refine Or.inr (List.mem_replicate.mpr ⟨?_, rfl⟩)
    simp only [List.length_take]
    omega

/-- The array holds the first `n - 1` bytes of the string copied into it. -/
@[simp] lemma str_strncpy (n : ℕ) [NeZero n] (s : Bytes) :
    (strncpy n s).str = (cstr s).take (n - 1) := by
  have hn : 0 < n := Nat.pos_of_ne_zero (NeZero.ne n)
  have hlt : 0 < n - ((cstr s).take (n - 1)).length := by
    simp only [List.length_take]
    omega
  obtain ⟨m, hm⟩ := Nat.exists_eq_succ_of_ne_zero hlt.ne'
  change cstr ((cstr s).take (n - 1) ++ List.replicate (n - ((cstr s).take (n - 1)).length) 0) = _
  rw [hm, List.replicate_succ]
  exact cstr_append_zero (fun h => zero_notMem_cstr s (List.mem_of_mem_take h)) _

/-- A string that fits is held whole. -/
lemma str_strncpy_of_lt {n : ℕ} [NeZero n] {s : Bytes} (h0 : (0 : UInt8) ∉ s)
    (hlen : s.length < n) : (strncpy n s).str = s := by
  rw [str_strncpy, cstr_eq_self h0, List.take_of_length_le (by omega)]

/-- `buf[n - 1] = 0` on the `n` bytes of a `char buf[n]` with any content. -/
def terminate (n : ℕ) [NeZero n] (s : Bytes) (h : s.length = n) : CharBuf n where
  bytes := s.take (n - 1) ++ [0]
  length_eq := by
    have hn : 0 < n := Nat.pos_of_ne_zero (NeZero.ne n)
    simp only [List.length_append, List.length_take, List.length_singleton]
    omega
  terminated := by simp

/-- The string read from a terminated array stops at the first NUL, at the latest at the one that
was put at its end. -/
@[simp] lemma str_terminate {n : ℕ} [NeZero n] {s : Bytes} (h : s.length = n) :
    (terminate n s h).str = (cstr s).take (n - 1) := by
  rw [← cstr_take]
  by_cases h0 : (0 : UInt8) ∈ s.take (n - 1)
  · change (s.take (n - 1) ++ [0]).takeWhile _ = (s.take (n - 1)).takeWhile _
    rw [List.takeWhile_append, if_neg]
    intro hlen
    have hself : cstr (s.take (n - 1)) = s.take (n - 1) := (cstr_isPrefix _).eq_of_length hlen
    exact zero_notMem_cstr (s.take (n - 1)) (hself.symm ▸ h0)
  · rw [cstr_eq_self h0]
    exact cstr_append_zero h0 []

/-- Terminating an array that holds a terminator does not change its string. -/
lemma str_terminate_bytes {n : ℕ} [NeZero n] (b : CharBuf n) :
    (terminate n b.bytes b.length_eq).str = b.str := by
  have hlen := b.str_length_lt
  rw [str_terminate, ← CharBuf.str, List.take_of_length_le (by omega)]

/-- `strncpy` into a zeroed array leaves nothing to terminate. -/
lemma terminate_strncpy (n : ℕ) [NeZero n] (s : Bytes) :
    terminate n (strncpy n s).bytes (strncpy n s).length_eq = strncpy n s := by
  have hn : 0 < n := Nat.pos_of_ne_zero (NeZero.ne n)
  have hlen : ((cstr s).take (n - 1)).length ≤ n - 1 := List.length_take_le _ _
  obtain ⟨k, hk⟩ : ∃ k, n - ((cstr s).take (n - 1)).length = k + 1 :=
    ⟨n - ((cstr s).take (n - 1)).length - 1, by omega⟩
  have hbytes : (strncpy n s).bytes = ((cstr s).take (n - 1) ++ List.replicate k 0) ++ [0] := by
    simp only [strncpy, hk, List.replicate_succ', List.append_assoc]
  have htake : (strncpy n s).bytes.take (n - 1) = (cstr s).take (n - 1) ++ List.replicate k 0 := by
    rw [hbytes, List.take_append_of_le_length, List.take_of_length_le] <;>
      simp only [List.length_append, List.length_replicate] <;> omega
  apply CharBuf.ext_bytes
  change (strncpy n s).bytes.take (n - 1) ++ [0] = (strncpy n s).bytes
  rw [htake, hbytes]

/-- `snprintf(buf, n, ..)` of a text: the bytes stored before the terminator, and the returned
length, which is that of the whole text. -/
def snprintf (n : ℕ) (text : Bytes) : Bytes × ℕ := (text.take (n - 1), text.length)

/-- A text shorter than the buffer is not truncated. -/
lemma snprintf_of_lt {n : ℕ} {text : Bytes} (h : text.length < n) :
    snprintf n text = (text, text.length) := by
  unfold snprintf
  rw [List.take_of_length_le (by omega)]

end Foundation
