import ParkingSystem.Foundation.Decimal
import ParkingSystem.Foundation.Lines
import ParkingSystem.Common

/-!
# The price updater

The commands `add` and `remove` of `price_updater.c` as functions on the content of the prices
file, when their file operations succeed.  `add` copies the file string by string, leaving out
the strings that are an entry of the city, and appends the new entry; `remove` appends a marker.

A line that does not fit the buffer of `fgets` is copied in several strings.  `cmdAdd_unlines`
says what becomes of the lines of a file: an entry of the city loses what fits the buffer, and
every other line is copied whole.
-/

namespace ParkingSystem

open Foundation

/-- `MAX_LINE`. -/
abbrev maxLine : ℕ := 256

/-- The text before the first comma of a line, with the line cut at the first `\r` or `\n`. -/
def entryName (line : Bytes) : Option Bytes :=
  (cutAt comma (line.takeWhile fun b => b ≠ cr ∧ b ≠ lf)).map Prod.fst

/-- What the copy loop of `cmd_add` writes for one string read by `fgets`. -/
def copyLine (city piece : Bytes) : Bytes :=
  let line := cstr piece
  if entryName line = some city then [] else line

/-- The text that `cmd_add` prints for an entry, without its newline. -/
def priceLine (city : Bytes) (price : ℚ) : Bytes := city ++ comma :: printFixed 6 price

/-- The text that `cmd_remove` prints for a city, without its newline. -/
def removeLine (city : Bytes) : Bytes := dash :: city

/-- `cmd_add`: the new content of the prices file.  A missing file counts as an empty one. -/
def cmdAdd (city : Bytes) (price : ℚ) (file : Bytes) : Bytes :=
  (fgetsAll maxLine file).flatMap (copyLine city) ++ (priceLine city price ++ [lf])

/-- `cmd_remove`: the new content of the prices file. -/
def cmdRemove (city file : Bytes) : Bytes := file ++ (removeLine city ++ [lf])

/-- A command of the price updater. -/
inductive Command where
  /-- `add CITY PRICE`. -/
  | add (city : Bytes) (price : ℚ)
  /-- `remove CITY`. -/
  | remove (city : Bytes)

namespace Command

/-- The city of a command. -/
def city : Command → Bytes
  | add city _ => city
  | remove city => city

/-- The effect of a command on the prices file. -/
def run : Command → Bytes → Bytes
  | add city price => cmdAdd city price
  | remove city => cmdRemove city

end Command

/-! ## The copy loop on lines -/

/-- A line of a prices file that the copy loop handles as a whole or in pieces of which only the
first can be an entry. -/
structure FileLine (line : Bytes) : Prop where
  lf_notMem : lf ∉ line
  zero_notMem : (0 : UInt8) ∉ line
  comma_drop : comma ∉ line.drop (maxLine - 1)

/-- A line that fits the buffer is handled as a whole. -/
lemma FileLine.of_short {line : Bytes} (hlf : lf ∉ line) (h0 : (0 : UInt8) ∉ line)
    (hlen : line.length < 255) : FileLine line where
  lf_notMem := hlf
  zero_notMem := h0
  comma_drop := by rw [List.drop_of_length_le (by simp only [maxLine]; omega)]; simp

/-- What the copy loop makes of a line: of an entry of the city, only what does not fit the buffer
is left. -/
def rewriteLine (city line : Bytes) : List Bytes :=
  if entryName line = some city then
    if line.length < maxLine - 1 then [] else [line.drop (maxLine - 1)]
  else [line]

/-- The name of an entry is determined by the part of the line that fits the buffer. -/
lemma entryName_take {line : Bytes} (h : FileLine line) :
    entryName ((line ++ [lf]).take (maxLine - 1)) = entryName line := by
  unfold entryName
  by_cases hlen : line.length < maxLine - 1
  · rw [List.take_of_length_le (by simp only [List.length_append, List.length_singleton]; omega)]
    congr 2
    rw [List.takeWhile_append]
    split_ifs with hall
    · have hself := (List.takeWhile_prefix _).eq_of_length hall
      rw [hself, List.takeWhile_cons_of_neg (by simp), List.append_nil]
    · rfl
  · rw [List.take_append_of_le_length (by omega), ← List.take_takeWhile, cutAt_take_fst]
    intro hmem
    obtain ⟨t, ht⟩ := List.takeWhile_prefix (l := line) fun b => b ≠ cr ∧ b ≠ lf
    apply h.comma_drop
    rw [← ht, List.drop_append]
    exact List.mem_append_left _ hmem

/-- A text without comma is no entry. -/
lemma entryName_eq_none {line : Bytes} (h : comma ∉ line) : entryName line = none := by
  have hcut : comma ∉ line.takeWhile fun b => b ≠ cr ∧ b ≠ lf := by
    intro hmem
    exact h ((List.takeWhile_prefix _).mem hmem)
  unfold entryName
  rw [cutAt_eq_none_iff.mpr hcut]
  rfl

/-- The lines of an entry: the name, which has no separators, a comma, and anything. -/
lemma entryName_eq_some_iff {line city : Bytes} :
    entryName line = some city ↔
      (comma ∉ city ∧ cr ∉ city ∧ lf ∉ city) ∧ ∃ t, line = city ++ comma :: t := by
  have hwhile : (line.takeWhile fun b => b ≠ cr ∧ b ≠ lf) <+: line := List.takeWhile_prefix _
  constructor
  · intro hname
    obtain ⟨⟨name, rest⟩, hcut, rfl⟩ := Option.map_eq_some_iff.mp hname
    obtain ⟨heq, hcomma⟩ := cutAt_eq_some_iff.mp hcut
    have hall : ∀ b ∈ name, b ≠ cr ∧ b ≠ lf := by
      intro b hb
      have hmem : b ∈ line.takeWhile fun b => b ≠ cr ∧ b ≠ lf := by
        rw [heq]
        exact List.mem_append_left _ hb
      simpa using List.mem_takeWhile_imp hmem
    obtain ⟨t, ht⟩ := hwhile
    rw [heq, List.append_assoc, List.cons_append] at ht
    exact ⟨⟨hcomma, fun hmem => (hall cr hmem).1 rfl, fun hmem => (hall lf hmem).2 rfl⟩, _, ht.symm⟩
  · rintro ⟨⟨hcomma, hcr, hlf⟩, t, rfl⟩
    have hall : ∀ b ∈ city, decide (b ≠ cr ∧ b ≠ lf) = true := by
      intro b hb
      simpa using ⟨ne_of_mem_of_not_mem hb hcr, ne_of_mem_of_not_mem hb hlf⟩
    unfold entryName
    rw [List.takeWhile_append_of_pos hall, List.takeWhile_cons_of_pos (by decide),
      cutAt_append hcomma]
    rfl

/-- The strings that `fgets` reads of one line: the first is what fits the buffer, and they make
up the line. -/
lemma fgetsAll_pieces {n : ℕ} (hn : 2 ≤ n) {line : Bytes} (hlf : lf ∉ line) (s : Bytes) :
    ∃ pieces : List Bytes, fgetsAll n (line ++ lf :: s) =
        (line ++ [lf]).take (n - 1) :: pieces ++ fgetsAll n s ∧
      pieces.flatten = (line ++ [lf]).drop (n - 1) := by
  induction hk : line.length using Nat.strong_induction_on generalizing line with
  | _ k ih =>
    subst hk
    by_cases hlen : line.length + 2 ≤ n
    · have htake : (line ++ [lf]).length ≤ n - 1 := by simp; omega
      refine ⟨[], ?_, ?_⟩
      · rw [fgetsAll_line hlf hlen, List.take_of_length_le htake]
        rfl
      · rw [List.drop_of_length_le htake]
        rfl
    · -- the first call takes the buffer's worth, and the rest is read as a shorter line
      have hrest : lf ∉ line.drop (n - 1) := fun hmem => hlf (List.mem_of_mem_drop hmem)
      obtain ⟨pieces, hall, hflat⟩ := ih (line.drop (n - 1)).length
        (by rw [List.length_drop]; omega) hrest rfl
      have htake : (line ++ lf :: s).take (n - 1) = (line ++ [lf]).take (n - 1) := by
        rw [List.take_append_of_le_length (by omega), List.take_append_of_le_length (by omega)]
      have hdrop : (line ++ lf :: s).drop (n - 1) = line.drop (n - 1) ++ lf :: s :=
        List.drop_append_of_le_length (by omega)
      have hcut : cutAt lf ((line ++ lf :: s).take (n - 1)) = none := by
        rw [cutAt_eq_none_iff, List.take_append_of_le_length (by omega)]
        intro hmem
        exact hlf (List.mem_of_mem_take hmem)
      have hcall : fgets n (line ++ lf :: s) =
          some ((line ++ [lf]).take (n - 1), line.drop (n - 1) ++ lf :: s) := by
        have hne : line ++ lf :: s ≠ [] := by simp
        unfold fgets
        rw [if_neg hne, hcut, hdrop, htake]
      refine ⟨(line.drop (n - 1) ++ [lf]).take (n - 1) :: pieces, ?_, ?_⟩
      · rw [fgetsAll_of_fgets hn hcall, hall]
        simp
      · rw [List.flatten_cons, hflat, List.take_append_drop,
          List.drop_append_of_le_length (by omega)]

/-- All but the first string of a line are without commas. -/
lemma FileLine.fgetsAll_pieces {line : Bytes} (h : FileLine line) (s : Bytes) :
    ∃ pieces : List Bytes, fgetsAll maxLine (line ++ lf :: s) =
        (line ++ [lf]).take (maxLine - 1) :: pieces ++ fgetsAll maxLine s ∧
      pieces.flatten = (line ++ [lf]).drop (maxLine - 1) ∧
      ∀ piece ∈ pieces, (0 : UInt8) ∉ piece ∧ comma ∉ piece := by
  obtain ⟨pieces, hall, hflat⟩ :=
    ParkingSystem.fgetsAll_pieces (show 2 ≤ maxLine by norm_num) h.lf_notMem s
  refine ⟨pieces, hall, hflat, ?_⟩
  intro piece hpiece
  have hsub : ∀ b ∈ piece, b ∈ line.drop (maxLine - 1) ∨ b = lf := by
    intro b hb
    have hmem : b ∈ (line ++ [lf]).drop (maxLine - 1) := by
      rw [← hflat]
      exact List.mem_flatten.mpr ⟨piece, hpiece, hb⟩
    rw [List.drop_append] at hmem
    rcases List.mem_append.mp hmem with hmem | hmem
    · exact Or.inl hmem
    · exact Or.inr (List.mem_singleton.mp (List.mem_of_mem_drop hmem))
  constructor
  · intro hmem
    rcases hsub _ hmem with h0 | h0
    · exact h.zero_notMem (List.mem_of_mem_drop h0)
    · exact absurd h0 (by decide)
  · intro hmem
    rcases hsub _ hmem with hc | hc
    · exact h.comma_drop hc
    · exact absurd hc (by decide)

/-- The copy loop makes of one line what `rewriteLine` says. -/
lemma flatMap_copyLine_line (city : Bytes) {line : Bytes} (h : FileLine line) (s : Bytes) :
    (fgetsAll maxLine (line ++ lf :: s)).flatMap (copyLine city) =
      unlines (rewriteLine city line) ++ (fgetsAll maxLine s).flatMap (copyLine city) := by
  obtain ⟨pieces, hall, hflat, hpieces⟩ := h.fgetsAll_pieces s
  have hfirst : copyLine city ((line ++ [lf]).take (maxLine - 1)) =
      if entryName line = some city then [] else (line ++ [lf]).take (maxLine - 1) := by
    have hzero : (0 : UInt8) ∉ (line ++ [lf]).take (maxLine - 1) := by
      intro hmem
      rcases List.mem_append.mp (List.mem_of_mem_take hmem) with hmem | hmem
      · exact h.zero_notMem hmem
      · exact absurd hmem (by decide)
    rw [copyLine, cstr_eq_self hzero, entryName_take h]
  -- the later strings of the line have no comma, so they are never an entry
  have hlater : pieces.flatMap (copyLine city) = (line ++ [lf]).drop (maxLine - 1) := by
    rw [← hflat, List.flatMap_def]
    congr 1
    refine List.map_congr_left (fun piece hpiece => ?_) |>.trans (List.map_id pieces)
    obtain ⟨hzero, hcomma⟩ := hpieces piece hpiece
    rw [copyLine, cstr_eq_self hzero, entryName_eq_none hcomma]
    rfl
  rw [hall, List.cons_append, List.flatMap_cons, List.flatMap_append, hfirst, hlater,
    ← List.append_assoc]
  congr 1
  unfold rewriteLine
  split_ifs with hname hlen
  · rw [List.drop_of_length_le (by simp only [List.length_append, List.length_singleton]; omega)]
    rfl
  · rw [List.drop_append_of_le_length (by omega)]
    simp
  · rw [List.take_append_drop]
    simp

/-- The copy loop makes of lines what `rewriteLine` says, whatever stands behind them. -/
lemma flatMap_copyLine_unlines (city : Bytes) {lines : List Bytes}
    (h : ∀ line ∈ lines, FileLine line) (s : Bytes) :
    (fgetsAll maxLine (unlines lines ++ s)).flatMap (copyLine city) =
      unlines (lines.flatMap (rewriteLine city)) ++
        (fgetsAll maxLine s).flatMap (copyLine city) := by
  induction lines with
  | nil => rfl
  | cons line lines ih =>
    rw [unlines_cons, List.append_assoc, List.cons_append,
      flatMap_copyLine_line city (h line (by simp)), ih fun l hl => h l (by simp [hl])]
    simp

/-- **`add` on lines.**  The entries of the city go, but for what does not fit the buffer, every
other line stays, and the new entry is the last line. -/
theorem cmdAdd_unlines (city : Bytes) (price : ℚ) {lines : List Bytes}
    (h : ∀ line ∈ lines, FileLine line) :
    cmdAdd city price (unlines lines) =
      unlines (lines.flatMap (rewriteLine city) ++ [priceLine city price]) := by
  have hcopy := flatMap_copyLine_unlines city h []
  rw [List.append_nil] at hcopy
  unfold cmdAdd
  rw [hcopy]
  simp [fgetsAll, fgetsLoop]

/-- **`add` on a file with an unfinished last line** that fits the buffer: unless it is an entry of
the city, the new entry is appended to this line. -/
theorem cmdAdd_unlines_rest (city : Bytes) (price : ℚ) {lines : List Bytes}
    (h : ∀ line ∈ lines, FileLine line) {rest : Bytes} (hlf : lf ∉ rest) (h0 : (0 : UInt8) ∉ rest)
    (hlen : rest.length < maxLine) :
    cmdAdd city price (unlines lines ++ rest) =
      unlines (lines.flatMap (rewriteLine city) ++
        [(if entryName rest = some city then [] else rest) ++ priceLine city price]) := by
  have hrest : (fgetsAll maxLine rest).flatMap (copyLine city) =
      if entryName rest = some city then [] else rest := by
    by_cases hnil : rest = []
    · simp [hnil, fgetsAll, fgetsLoop]
    · rw [fgetsAll_rest hlf hnil hlen]
      simp [copyLine, cstr_eq_self h0]
  unfold cmdAdd
  rw [flatMap_copyLine_unlines city h, hrest]
  simp

/-- Of lines that fit the buffer, the entries of the city go as a whole. -/
lemma flatMap_rewriteLine (city : Bytes) {lines : List Bytes}
    (h : ∀ line ∈ lines, line.length < maxLine - 1) :
    lines.flatMap (rewriteLine city) =
      lines.filter fun line => entryName line ≠ some city := by
  induction lines with
  | nil => rfl
  | cons line lines ih =>
    obtain ⟨hlen, hlines⟩ := List.forall_mem_cons.mp h
    rw [List.flatMap_cons, ih hlines]
    by_cases hname : entryName line = some city
    · rw [rewriteLine, if_pos hname, if_pos hlen, List.filter_cons_of_neg (by simpa using hname)]
      rfl
    · simp [rewriteLine, hname]

/-- **`remove` on lines.**  The marker is the last line. -/
theorem cmdRemove_unlines (city : Bytes) (lines : List Bytes) :
    cmdRemove city (unlines lines) = unlines (lines ++ [removeLine city]) := by
  simp [cmdRemove]

end ParkingSystem
