import ParkingSystem.Foundation.Text

/-!
# Lines of a byte stream

`cutLines` splits a byte string into its newline-terminated lines and the unfinished rest.  Its
main law is `cutLines_append`: what a reader that keeps the unfinished rest between two reads sees
is the same however the stream is cut into reads.  `unlines` is the inverse on terminated lines.

`getlines` is the sequence of strings that a `std::getline` loop reads from a stream, and
`fgetsAll n` the sequence of strings that a loop of `fgets(buf, n, fp)` reads: it also breaks a
line that does not fit the buffer.
-/

namespace Foundation

/-- The newline byte. -/
abbrev lf : UInt8 := 10

/-- The carriage return byte. -/
abbrev cr : UInt8 := 13

/-! ## Complete lines and the unfinished rest -/

/-- The newline-terminated lines of a byte string, each without its newline, and the bytes behind
the last newline. -/
def cutLines : Bytes → List Bytes × Bytes
  | [] => ([], [])
  | c :: cs =>
    let p := cutLines cs
    if c = lf then ([] :: p.1, p.2)
    else match p.1 with
      | [] => ([], c :: p.2)
      | l :: ls => ((c :: l) :: ls, p.2)

/-- Lines written one after the other, each followed by a newline. -/
def unlines (ls : List Bytes) : Bytes := (ls.map (· ++ [lf])).flatten

@[simp] lemma unlines_nil : unlines [] = [] := rfl

@[simp] lemma unlines_cons (l : Bytes) (ls : List Bytes) :
    unlines (l :: ls) = l ++ lf :: unlines ls := by
  simp [unlines]

@[simp] lemma unlines_append (ls ms : List Bytes) :
    unlines (ls ++ ms) = unlines ls ++ unlines ms := by
  simp [unlines]

/-- A string without newline is all unfinished rest. -/
lemma cutLines_of_notMem {s : Bytes} (h : lf ∉ s) : cutLines s = ([], s) := by
  induction s with
  | nil => rfl
  | cons c cs ih =>
    rw [List.mem_cons, not_or] at h
    simp [cutLines, ih h.2, Ne.symm h.1]

/-- The first line is what stands before the first newline. -/
lemma cutLines_line {l : Bytes} (h : lf ∉ l) (s : Bytes) :
    cutLines (l ++ lf :: s) = (l :: (cutLines s).1, (cutLines s).2) := by
  induction l with
  | nil => simp [cutLines]
  | cons c cs ih =>
    rw [List.mem_cons, not_or] at h
    simp [cutLines, ih h.2, Ne.symm h.1]

/-- One turn of a loop that searches for a newline and takes the text before it off the front. -/
lemma cutLines_of_cutAt {s l r : Bytes} (h : cutAt lf s = some (l, r)) :
    cutLines s = (l :: (cutLines r).1, (cutLines r).2) := by
  obtain ⟨rfl, hl⟩ := cutAt_eq_some_iff.mp h
  exact cutLines_line hl r

/-- Lines that hold no newline are read back as they were written. -/
lemma cutLines_unlines {ls : List Bytes} (h : ∀ l ∈ ls, lf ∉ l) (s : Bytes) :
    cutLines (unlines ls ++ s) = (ls ++ (cutLines s).1, (cutLines s).2) := by
  induction ls with
  | nil => simp
  | cons l ls ih =>
    have hl : lf ∉ l := h l (by simp)
    have hls : ∀ m ∈ ls, lf ∉ m := fun m hm => h m (by simp [hm])
    rw [unlines_cons, List.append_assoc, List.cons_append, cutLines_line hl, ih hls]
    simp

/-- A byte string is its lines written back, followed by the unfinished rest; neither the lines
nor the rest hold a newline. -/
lemma cutLines_spec (s : Bytes) :
    s = unlines (cutLines s).1 ++ (cutLines s).2 ∧
      (∀ l ∈ (cutLines s).1, lf ∉ l) ∧ lf ∉ (cutLines s).2 := by
  induction s with
  | nil => simp [cutLines]
  | cons c cs ih =>
    obtain ⟨heq, hls, hr⟩ := ih
    by_cases hc : c = lf
    · simp only [cutLines, hc, if_true, unlines_cons, List.nil_append, List.cons_append,
        List.mem_cons]
      refine ⟨by rw [← heq], ?_, hr⟩
      rintro l (rfl | hl)
      · simp
      · exact hls l hl
    · have hc' : lf ≠ c := Ne.symm hc
      cases h : (cutLines cs).1 with
      | nil =>
        rw [h, unlines_nil, List.nil_append] at heq
        simp only [cutLines, hc, if_false, h, unlines_nil, List.nil_append]
        refine ⟨by rw [← heq], by simp, ?_⟩
        rw [List.mem_cons, not_or]
        exact ⟨hc', hr⟩
      | cons l ls =>
        rw [h] at heq hls
        simp only [cutLines, hc, if_false, h]
        refine ⟨?_, ?_, hr⟩
        · rw [unlines_cons, List.cons_append, List.cons_append, ← unlines_cons, ← heq]
        · intro m hm
          rcases List.mem_cons.mp hm with rfl | hm
          · rw [List.mem_cons, not_or]
            exact ⟨hc', hls l (by simp)⟩
          · exact hls m (by simp [hm])

/-- A byte string is its lines written back, followed by the unfinished rest. -/
lemma unlines_cutLines (s : Bytes) : unlines (cutLines s).1 ++ (cutLines s).2 = s :=
  (cutLines_spec s).1.symm

/-- No line holds a newline. -/
lemma notMem_of_mem_cutLines {s l : Bytes} (h : l ∈ (cutLines s).1) : lf ∉ l :=
  (cutLines_spec s).2.1 l h

/-- The unfinished rest holds no newline. -/
lemma notMem_cutLines_rest (s : Bytes) : lf ∉ (cutLines s).2 := (cutLines_spec s).2.2

/-- Complete lines at the beginning of a stream of lines are the first lines of the stream, and what
follows them are the others. -/
lemma exists_of_unlines_append {ls ms : List Bytes} {r : Bytes} (hls : ∀ l ∈ ls, lf ∉ l)
    (hms : ∀ m ∈ ms, lf ∉ m) (h : unlines ls ++ r = unlines ms) :
    ∃ ms', ms = ls ++ ms' ∧ r = unlines ms' := by
  have hcut := congrArg cutLines h
  rw [cutLines_unlines hls, ← List.append_nil (unlines ms), cutLines_unlines hms,
    Prod.mk.injEq] at hcut
  obtain ⟨hlines, hrest⟩ := hcut
  refine ⟨(cutLines r).1, by simpa [cutLines] using hlines.symm, ?_⟩
  have hr := unlines_cutLines r
  rw [hrest] at hr
  simpa [cutLines] using hr.symm

/-- A line stands somewhere in the string. -/
lemma isInfix_of_mem_cutLines {s l : Bytes} (h : l ∈ (cutLines s).1) : l <:+: s := by
  obtain ⟨before, after, hlines⟩ := List.append_of_mem h
  refine ⟨unlines before, lf :: (unlines after ++ (cutLines s).2), ?_⟩
  conv_rhs => rw [← unlines_cutLines s, hlines]
  simp [unlines]

/-- The bytes of a line are bytes of the string. -/
lemma mem_of_mem_cutLines {s l : Bytes} (hl : l ∈ (cutLines s).1) {b : UInt8} (hb : b ∈ l) :
    b ∈ s :=
  (isInfix_of_mem_cutLines hl).mem hb

/-- The bytes of the unfinished rest are bytes of the string. -/
lemma mem_of_mem_cutLines_rest {s : Bytes} {b : UInt8} (hb : b ∈ (cutLines s).2) : b ∈ s := by
  rw [← unlines_cutLines s]
  exact List.mem_append_right _ hb

/-- **Cutting is independent of read boundaries.**  Cutting `s ++ t` gives the lines of `s`, then
the lines of the unfinished rest of `s` followed by `t`. -/
theorem cutLines_append (s t : Bytes) :
    cutLines (s ++ t) =
      ((cutLines s).1 ++ (cutLines ((cutLines s).2 ++ t)).1,
        (cutLines ((cutLines s).2 ++ t)).2) := by
  conv_lhs => rw [← unlines_cutLines s, List.append_assoc]
  rw [cutLines_unlines fun l hl => notMem_of_mem_cutLines hl]

/-- The unfinished rest cuts into no further line. -/
@[simp] lemma cutLines_rest (s : Bytes) : cutLines (cutLines s).2 = ([], (cutLines s).2) :=
  cutLines_of_notMem (notMem_cutLines_rest s)

/-- The unfinished rest is the beginning of a line, or of the rest, of every longer string. -/
lemma cutLines_rest_isPrefix (s t : Bytes) :
    (∃ l ∈ (cutLines (s ++ t)).1, (cutLines s).2 <+: l) ∨
      (cutLines s).2 <+: (cutLines (s ++ t)).2 := by
  rw [cutLines_append]
  cases hcut : cutAt lf t with
  | none =>
    right
    have hlf : lf ∉ (cutLines s).2 ++ t := by
      exact List.not_mem_append (notMem_cutLines_rest s) (cutAt_eq_none_iff.mp hcut)
    rw [cutLines_of_notMem hlf]
    exact List.prefix_append _ _
  | some p =>
    obtain ⟨a, b⟩ := p
    obtain ⟨rfl, ha⟩ := cutAt_eq_some_iff.mp hcut
    have hlf : lf ∉ (cutLines s).2 ++ a := by
      exact List.not_mem_append (notMem_cutLines_rest s) ha
    left
    refine ⟨(cutLines s).2 ++ a, ?_, List.prefix_append _ _⟩
    rw [← List.append_assoc, cutLines_line hlf]
    exact List.mem_append_right _ List.mem_cons_self

/-- A stream of complete lines that has lost the beginning of its first line is a stream of complete
lines: the first is the end of what it was. -/
lemma forall₂_suffix_cutLines {p q : Bytes} (hp : lf ∉ p) (hrest : (cutLines (p ++ q)).2 = []) :
    (cutLines q).2 = [] ∧ List.Forall₂ (· <:+ ·) (cutLines q).1 (cutLines (p ++ q)).1 := by
  cases hcut : cutAt lf q with
  | none =>
    have hq := cutAt_eq_none_iff.mp hcut
    rw [cutLines_of_notMem (List.not_mem_append hp hq)] at hrest ⊢
    rw [cutLines_of_notMem hq]
    exact ⟨(List.append_eq_nil_iff.mp hrest).2, .nil⟩
  | some c =>
    obtain ⟨rfl, ha⟩ := cutAt_eq_some_iff.mp hcut
    have hpa : lf ∉ p ++ c.1 := List.not_mem_append hp ha
    rw [← List.append_assoc, cutLines_line hpa] at hrest ⊢
    rw [cutLines_line ha]
    exact ⟨hrest, .cons (List.suffix_append _ _) (List.forall₂_same.mpr fun l _ => l.suffix_refl)⟩

/-! ## Carriage returns -/

/-- Strip one carriage return from the end of a line: `if (line.back() == '\r') line.pop_back()`. -/
def stripCr (line : Bytes) : Bytes := if line.getLast? = some cr then line.dropLast else line

/-- A line that does not end in a carriage return is left alone. -/
lemma stripCr_of_getLast?_ne {line : Bytes} (h : line.getLast? ≠ some cr) : stripCr line = line :=
  if_neg h

/-- A line without carriage return is left alone. -/
lemma stripCr_of_notMem {line : Bytes} (h : cr ∉ line) : stripCr line = line :=
  stripCr_of_getLast?_ne fun hlast => h (List.mem_of_getLast? hlast)

/-- At most one carriage return is stripped. -/
lemma stripCr_cases (line : Bytes) : line = stripCr line ∨ line = stripCr line ++ [cr] := by
  unfold stripCr
  split_ifs with hlast
  · exact .inr (List.dropLast_append_getLast? cr hlast).symm
  · exact .inl rfl

/-- Stripping takes nothing but the end off. -/
lemma stripCr_isPrefix (line : Bytes) : stripCr line <+: line := by
  unfold stripCr
  split_ifs
  · exact List.dropLast_prefix line
  · exact List.prefix_rfl

/-- Stripping does not reach a byte that is no carriage return, nor what stands before it. -/
lemma stripCr_append_cons {a : Bytes} {b : UInt8} (hb : b ≠ cr) (r : Bytes) :
    ∃ r', stripCr (a ++ b :: r) = a ++ b :: r' := by
  unfold stripCr
  split_ifs with hlast
  · cases r with
    | nil =>
      rw [List.getLast?_concat, Option.some.injEq] at hlast
      exact absurd hlast hb
    | cons x r =>
      refine ⟨(x :: r).dropLast, ?_⟩
      rw [List.dropLast_append_of_ne_nil (by simp), List.dropLast_cons_of_ne_nil (by simp)]
  · exact ⟨r, rfl⟩

/-! ## `std::getline` -/

/-- One `std::getline(ss, token, d)` on the bytes left in a stream: the token and what is left, or
nothing when the stream is exhausted. -/
def getline (d : UInt8) (s : Bytes) : Option (Bytes × Bytes) :=
  if s = [] then none else some ((cutAt d s).getD (s, []))

/-- A token that a delimiter ends. -/
@[simp] lemma getline_append {d : UInt8} {a : Bytes} (h : d ∉ a) (b : Bytes) :
    getline d (a ++ d :: b) = some (a, b) := by
  simp [getline, h]

/-- The last token of a stream may end with the stream. -/
lemma getline_of_notMem {d : UInt8} {a : Bytes} (hne : a ≠ []) (h : d ∉ a) :
    getline d a = some (a, []) := by
  simp [getline, hne, cutAt_eq_none_iff.mpr h]

/-- A token after which something more is read was ended by its delimiter. -/
lemma getline_eq_some_of_next {d d' : UInt8} {s a b : Bytes} {p : Bytes × Bytes}
    (h : getline d s = some (a, b)) (hnext : getline d' b = some p) :
    s = a ++ d :: b ∧ d ∉ a := by
  cases hc : cutAt d s with
  | some q =>
    simp only [getline, hc, Option.getD_some, Option.ite_none_left_eq_some,
      Option.some.injEq] at h
    rw [h.2] at hc
    exact cutAt_eq_some_iff.mp hc
  | none =>
    simp only [getline, hc, Option.getD_none, Option.ite_none_left_eq_some,
      Option.some.injEq, Prod.mk.injEq] at h
    rw [← h.2.2] at hnext
    simp [getline] at hnext

/-- The strings that a loop of `std::getline` reads: the terminated lines, then the unfinished
last line if there is one. -/
def getlines (s : Bytes) : List Bytes :=
  (cutLines s).1 ++ if (cutLines s).2 = [] then [] else [(cutLines s).2]

/-- `getlines` is the loop that calls `std::getline` until the stream is exhausted. -/
lemma getlines_eq_loop (s : Bytes) :
    getlines s = match getline lf s with
      | none => []
      | some (l, r) => l :: getlines r := by
  by_cases hs : s = []
  · simp [hs, getlines, getline, cutLines]
  · cases h : cutAt lf s with
    | none =>
      have hlf : lf ∉ s := cutAt_eq_none_iff.mp h
      simp [getlines, getline_of_notMem hs hlf, cutLines_of_notMem hlf, hs, cutLines]
    | some p =>
      obtain ⟨l, r⟩ := p
      simp [getlines, getline, hs, h, cutLines_of_cutAt h]

/-- What is complete of a stream is read first. -/
lemma getlines_append (s t : Bytes) :
    getlines (s ++ t) = (cutLines s).1 ++ getlines ((cutLines s).2 ++ t) := by
  unfold getlines
  rw [cutLines_append, List.append_assoc]

/-- Terminated lines are read as they were written. -/
@[simp] lemma getlines_unlines {ls : List Bytes} (h : ∀ l ∈ ls, lf ∉ l) :
    getlines (unlines ls) = ls := by
  have := cutLines_unlines h []
  simp only [List.append_nil, cutLines] at this
  simp [getlines, this]

/-! ## `fgets` -/

/-- One `fgets(buf, n, fp)` on the bytes left in a file: at most `n - 1` bytes, up to and with the
first newline among them; nothing at the end of the file. -/
def fgets (n : ℕ) (s : Bytes) : Option (Bytes × Bytes) :=
  if s = [] then none
  else match cutAt lf (s.take (n - 1)) with
    | some (l, _) => some (l ++ [lf], s.drop (l.length + 1))
    | none => some (s.take (n - 1), s.drop (n - 1))

/-- `fgets` called at most `fuel` times. -/
def fgetsLoop (n : ℕ) : ℕ → Bytes → List Bytes
  | 0, _ => []
  | fuel + 1, s =>
    match fgets n s with
    | none => []
    | some (piece, rest) => piece :: fgetsLoop n fuel rest

/-- The strings that a loop of `fgets(buf, n, fp)` reads from a file.  For `2 ≤ n` each call takes
at least one byte, so the file's length bounds the number of calls. -/
def fgetsAll (n : ℕ) (s : Bytes) : List Bytes := fgetsLoop n s.length s

/-- What one `fgets` returns: the first line of what fits the buffer, or all that fits it. -/
lemma fgets_cases {n : ℕ} {s piece rest : Bytes} (h : fgets n s = some (piece, rest)) :
    s ≠ [] ∧
      ((∃ l r, cutAt lf (s.take (n - 1)) = some (l, r) ∧ piece = l ++ [lf] ∧
          rest = s.drop (l.length + 1)) ∨
        cutAt lf (s.take (n - 1)) = none ∧ piece = s.take (n - 1) ∧ rest = s.drop (n - 1)) := by
  unfold fgets at h
  split_ifs at h with hs
  refine ⟨hs, ?_⟩
  cases hc : cutAt lf (s.take (n - 1)) with
  | none =>
    rw [hc] at h
    obtain ⟨rfl, rfl⟩ := Prod.mk.inj (Option.some.inj h)
    exact .inr ⟨rfl, rfl, rfl⟩
  | some p =>
    obtain ⟨l, r⟩ := p
    rw [hc] at h
    obtain ⟨rfl, rfl⟩ := Prod.mk.inj (Option.some.inj h)
    exact .inl ⟨l, r, rfl, rfl, rfl⟩

/-- What one `fgets` leaves is shorter than what it found. -/
lemma length_of_fgets {n : ℕ} (hn : 2 ≤ n) {s piece rest : Bytes}
    (h : fgets n s = some (piece, rest)) : rest.length < s.length := by
  obtain ⟨hs, ⟨l, r, -, -, rfl⟩ | ⟨-, -, rfl⟩⟩ := fgets_cases h
  all_goals
    have hpos : 0 < s.length := List.length_pos_iff.mpr hs
    rw [List.length_drop]
    omega

/-- What `fgets` reads and what it leaves make up what it found. -/
lemma append_of_fgets {n : ℕ} {s piece rest : Bytes} (h : fgets n s = some (piece, rest)) :
    piece ++ rest = s := by
  obtain ⟨-, ⟨l, r, hc, rfl, rfl⟩ | ⟨-, rfl, rfl⟩⟩ := fgets_cases h
  · obtain ⟨x, rfl⟩ : ∃ x, s = (l ++ [lf]) ++ x := by
      have hcut := (cutAt_eq_some_iff.mp hc).1
      refine ⟨r ++ s.drop (n - 1), ?_⟩
      calc s = s.take (n - 1) ++ s.drop (n - 1) := (List.take_append_drop _ _).symm
        _ = (l ++ [lf]) ++ (r ++ s.drop (n - 1)) := by rw [hcut]; simp
    have hlen : l.length + 1 = (l ++ [lf]).length := by simp
    rw [hlen, List.drop_left]
  · exact List.take_append_drop _ _

/-- The string ends neither with a newline nor with the buffer, so that `fgets` came to the end of
the file: a stream stays there, even when the file grows. -/
def hitEof (n : ℕ) (piece : Bytes) : Bool := piece.getLast? ≠ some lf ∧ piece.length < n - 1

/-- At the end of the file nothing is left. -/
lemma rest_eq_nil_of_hitEof {n : ℕ} {s piece rest : Bytes} (h : fgets n s = some (piece, rest))
    (hend : hitEof n piece = true) : rest = [] := by
  obtain ⟨hlast, hlen⟩ := of_decide_eq_true hend
  obtain ⟨-, ⟨l, r, -, rfl, -⟩ | ⟨-, rfl, rfl⟩⟩ := fgets_cases h
  · exact absurd (by simp) hlast
  · rw [List.length_take] at hlen
    exact List.drop_of_length_le (by omega)

/-- Before the end of the file, `fgets` reads the same when the file has grown. -/
lemma fgets_append {n : ℕ} {s piece rest : Bytes} (h : fgets n s = some (piece, rest))
    (hend : hitEof n piece = false) (t : Bytes) :
    fgets n (s ++ t) = some (piece, rest ++ t) := by
  have hmore := of_decide_eq_false hend
  rw [not_and, not_lt] at hmore
  obtain ⟨hs, ⟨l, r, hc, rfl, rfl⟩ | ⟨hc, rfl, rfl⟩⟩ := fgets_cases h
  · obtain ⟨hcut, hl⟩ := cutAt_eq_some_iff.mp hc
    have hlen : l.length + 1 ≤ s.length := by
      have := congrArg List.length hcut
      simp only [List.length_take, List.length_append, List.length_cons] at this
      omega
    unfold fgets
    rw [if_neg (by simp [hs]), List.take_append, hcut, List.append_assoc, List.cons_append,
      cutAt_append hl]
    simp only [List.drop_append_of_le_length hlen]
  · have hlast : (s.take (n - 1)).getLast? ≠ some lf := fun hlast =>
      cutAt_eq_none_iff.mp hc (List.mem_of_getLast? hlast)
    have hlen : n - 1 ≤ s.length := by
      have := hmore hlast
      rw [List.length_take] at this
      omega
    unfold fgets
    rw [if_neg (by simp [hs]), List.take_append_of_le_length hlen,
      List.drop_append_of_le_length hlen, hc]

/-- More calls than there are bytes read nothing more. -/
lemma fgetsLoop_eq_fgetsAll {n : ℕ} (hn : 2 ≤ n) {fuel : ℕ} {s : Bytes} (h : s.length ≤ fuel) :
    fgetsLoop n fuel s = fgetsAll n s := by
  suffices ∀ (f g : ℕ) (s : Bytes), s.length ≤ f → s.length ≤ g →
      fgetsLoop n f s = fgetsLoop n g s from this fuel s.length s h le_rfl
  intro f
  induction f with
  | zero =>
    intro g s hf _
    have hs : s = [] := List.length_eq_zero_iff.mp (Nat.le_zero.mp hf)
    subst hs
    cases g <;> simp [fgetsLoop, fgets]
  | succ f ih =>
    intro g s hf hg
    cases g with
    | zero =>
      have hs : s = [] := List.length_eq_zero_iff.mp (Nat.le_zero.mp hg)
      subst hs
      simp [fgetsLoop, fgets]
    | succ g =>
      cases hcall : fgets n s with
      | none => simp [fgetsLoop, hcall]
      | some p =>
        obtain ⟨piece, rest⟩ := p
        have hlt := length_of_fgets hn hcall
        simp [fgetsLoop, hcall, ih g rest (by omega) (by omega)]

/-- `fgetsAll` is the loop that calls `fgets` until the end of the file. -/
lemma fgetsAll_of_fgets {n : ℕ} (hn : 2 ≤ n) {s piece rest : Bytes}
    (h : fgets n s = some (piece, rest)) : fgetsAll n s = piece :: fgetsAll n rest := by
  have hlt := length_of_fgets hn h
  have hpos : 0 < s.length := by omega
  obtain ⟨m, hm⟩ := Nat.exists_eq_succ_of_ne_zero hpos.ne'
  rw [fgetsAll, hm, fgetsLoop, h]
  simp only
  rw [fgetsLoop_eq_fgetsAll hn (by omega)]

/-- A line that fits the buffer is read with its newline. -/
lemma fgetsAll_line {n : ℕ} {l : Bytes} (hl : lf ∉ l) (hlen : l.length + 2 ≤ n) (s : Bytes) :
    fgetsAll n (l ++ lf :: s) = (l ++ [lf]) :: fgetsAll n s := by
  have htake : (l ++ lf :: s).take (n - 1) = l ++ lf :: s.take (n - 1 - (l.length + 1)) := by
    obtain ⟨k, hk⟩ : ∃ k, n - 1 = l.length + (k + 1) := ⟨n - 2 - l.length, by omega⟩
    rw [hk, List.take_length_add_append, List.take_succ_cons]
    congr 3
    omega
  apply fgetsAll_of_fgets (by omega)
  simp only [fgets, htake, cutAt_append hl]
  simp

/-- An unfinished line that fits the buffer is read as it stands. -/
lemma fgetsAll_rest {n : ℕ} {s : Bytes} (hs : lf ∉ s) (hne : s ≠ []) (hlen : s.length < n) :
    fgetsAll n s = [s] := by
  have hpos : 0 < s.length := List.length_pos_iff.mpr hne
  have htake : s.take (n - 1) = s := List.take_of_length_le (by omega)
  have hcall : fgets n s = some (s, []) := by
    unfold fgets
    rw [if_neg hne, htake, cutAt_eq_none_iff.mpr hs, List.drop_of_length_le (by omega)]
  rw [fgetsAll_of_fgets (by omega) hcall]
  rfl

/-- Lines that fit the buffer are read one by one. -/
lemma fgetsAll_of_short {n : ℕ} {s : Bytes} (h : ∀ l ∈ getlines s, l.length + 2 ≤ n) :
    fgetsAll n s =
      (cutLines s).1.map (· ++ [lf]) ++ if (cutLines s).2 = [] then [] else [(cutLines s).2] := by
  have hlines : ∀ (ls : List Bytes) (r : Bytes), (∀ l ∈ ls, lf ∉ l ∧ l.length + 2 ≤ n) →
      fgetsAll n (unlines ls ++ r) = ls.map (· ++ [lf]) ++ fgetsAll n r := by
    intro ls r hls
    induction ls with
    | nil => rfl
    | cons l ls ih =>
      rw [List.forall_mem_cons] at hls
      rw [unlines_cons, List.append_assoc, List.cons_append, fgetsAll_line hls.1.1 hls.1.2,
        ih hls.2]
      rfl
  conv_lhs => rw [← unlines_cutLines s]
  rw [hlines _ _ fun l hl => ⟨notMem_of_mem_cutLines hl, h l (List.mem_append_left _ hl)⟩]
  congr 1
  split_ifs with hrest
  · rw [hrest]
    rfl
  · have hlen := h (cutLines s).2 (List.mem_append_right _ (by simp [hrest]))
    exact fgetsAll_rest (notMem_cutLines_rest s) hrest (by omega)

/-- What `fgets` reads of a file makes up the file. -/
lemma flatten_fgetsAll {n : ℕ} (hn : 2 ≤ n) (s : Bytes) : (fgetsAll n s).flatten = s := by
  induction hk : s.length using Nat.strong_induction_on generalizing s with
  | _ k ih =>
    subst hk
    cases hcall : fgets n s with
    | none =>
      have hs : s = [] := by
        by_contra hs
        unfold fgets at hcall
        rw [if_neg hs] at hcall
        split at hcall <;> simp at hcall
      rw [hs]
      rfl
    | some p =>
      obtain ⟨piece, rest⟩ := p
      rw [fgetsAll_of_fgets hn hcall, List.flatten_cons, ih _ (length_of_fgets hn hcall) _ rfl]
      exact append_of_fgets hcall

/-- A file that ends with a newline is read as if nothing stood behind it. -/
lemma fgetsAll_append {n : ℕ} (hn : 2 ≤ n) {s : Bytes} (h : s.getLast? = some lf) (t : Bytes) :
    fgetsAll n (s ++ t) = fgetsAll n s ++ fgetsAll n t := by
  induction hk : s.length using Nat.strong_induction_on generalizing s with
  | _ k ih =>
    subst hk
    cases hcall : fgets n s with
    | none =>
      have hs : s ≠ [] := by
        rintro rfl
        simp at h
      unfold fgets at hcall
      rw [if_neg hs] at hcall
      split at hcall <;> simp at hcall
    | some p =>
      obtain ⟨piece, rest⟩ := p
      have happend := append_of_fgets hcall
      have hend : hitEof n piece = false := by
        by_contra hend
        rw [Bool.not_eq_false] at hend
        rw [rest_eq_nil_of_hitEof hcall hend, List.append_nil] at happend
        exact (of_decide_eq_true hend).1 (happend ▸ h)
      rw [fgetsAll_of_fgets hn (fgets_append hcall hend t), fgetsAll_of_fgets hn hcall,
        List.cons_append]
      congr 1
      by_cases hrest : rest = []
      · simp [hrest, fgetsAll, fgetsLoop]
      · refine ih _ (length_of_fgets hn hcall) ?_ rfl
        rwa [← happend, List.getLast?_append_of_ne_nil _ hrest] at h

/-- Pieces that may have lost something make up the same whole only if nothing is lost of any. -/
lemma flatMap_eq_flatMap_iff {α β : Type*} {f g : α → List β} {l : List α}
    (h : ∀ x ∈ l, (f x).Sublist (g x)) : l.flatMap f = l.flatMap g ↔ ∀ x ∈ l, f x = g x := by
  refine ⟨fun heq => ?_, fun heq => List.flatMap_congr heq⟩
  induction l with
  | nil => simp
  | cons a l ih =>
    rw [List.forall_mem_cons] at h
    have hle := (List.Sublist.flatMap_right l h.2).length_le
    have hhead := h.1.length_le
    have hlen := congrArg List.length heq
    rw [List.flatMap_cons, List.flatMap_cons, List.length_append, List.length_append] at hlen
    have ha : f a = g a := h.1.eq_of_length (by omega)
    rw [List.flatMap_cons, List.flatMap_cons, ha] at heq
    exact List.forall_mem_cons.mpr ⟨ha, ih h.2 (List.append_cancel_left heq)⟩

/-- The lines of a byte string with their newlines, and the unfinished last line if there is
one. -/
def lineTexts (s : Bytes) : List Bytes :=
  (cutLines s).1.map (· ++ [lf]) ++ if (cutLines s).2 = [] then [] else [(cutLines s).2]

/-- The strings that `fgets` reads of a file are those that it reads of its lines. -/
lemma fgetsAll_eq_flatMap {n : ℕ} (hn : 2 ≤ n) (s : Bytes) :
    fgetsAll n s = (lineTexts s).flatMap (fgetsAll n) := by
  have hlines : ∀ (ls : List Bytes) (r : Bytes), fgetsAll n (unlines ls ++ r) =
      (ls.map (· ++ [lf])).flatMap (fgetsAll n) ++ fgetsAll n r := by
    intro ls r
    induction ls with
    | nil => rfl
    | cons l ls ih =>
      have hcons : unlines (l :: ls) ++ r = (l ++ [lf]) ++ (unlines ls ++ r) := by simp
      rw [hcons, fgetsAll_append hn (by simp), ih]
      simp
  conv_lhs => rw [← unlines_cutLines s]
  rw [hlines, lineTexts, List.flatMap_append]
  congr 1
  split_ifs with hrest
  · rw [hrest]
    rfl
  · simp

end Foundation
