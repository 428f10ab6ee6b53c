import ParkingSystem.Db.AddReplay

/-!
# Adding as an update of a keyed list of lines

Over files whose lines end with a newline and fit the buffer of `fgets`, `cmd_add` is the operation
`setEntry` on the list of lines: leave out the lines with the name of the city, and put the new
entry at the end.  The laws of `add` are those of `setEntry`: what becomes of each line, a second
`add` of the same city takes the place of the first, and two cities can be added in either order up
to the order of the two new lines.
-/

namespace ParkingSystem

open Foundation

/-- The text of a line before its first comma. -/
def nameOf (line : Bytes) : Option Bytes := (cutAt comma line).map Prod.fst

/-- The lines with the entry of a city set: the lines with the name of the city go, and the new
entry is the last line. -/
def setEntry (city : Bytes) (price : ℚ) (lines : List Bytes) : List Bytes :=
  (lines.filter fun line => nameOf line ≠ some city) ++ [priceLine city price]

/-- A prices file without NUL, all whose lines end with a newline and fit the buffer. -/
@[mk_iff]
structure WholeLines (file : Bytes) : Prop extends ShortLines file where
  rest_eq_nil : (cutLines file).2 = []

instance (file : Bytes) : Decidable (WholeLines file) := decidable_of_iff' _ (wholeLines_iff file)

/-- A city name without separators, and a price with which its line fits the buffer. -/
@[mk_iff]
structure ShortEntry (city : Bytes) (price : ℚ) : Prop where
  zero_notMem : (0 : UInt8) ∉ city
  comma_notMem : comma ∉ city
  cr_notMem : cr ∉ city
  lf_notMem : lf ∉ city
  length_lt : (priceLine city price).length < 255

instance (city : Bytes) (price : ℚ) : Decidable (ShortEntry city price) :=
  decidable_of_iff' _ (shortEntry_iff city price)

/-- The new file has exactly one line with the name of the city, which is the new entry and the last
line, and its other lines are those of the old file in their order. -/
structure EntryAdded (city : Bytes) (price : ℚ) (old new : Bytes) : Prop where
  ends_with_line : (cutLines new).2 = []
  one_line : ((cutLines new).1.filter fun line => nameOf line = some city) = [priceLine city price]
  last_line : (cutLines new).1.getLast? = some (priceLine city price)
  other_lines : ((cutLines new).1.filter fun line => nameOf line ≠ some city) =
    (cutLines old).1.filter fun line => nameOf line ≠ some city

/-- Two files that differ by swapping their last two lines. -/
def LastTwoSwapped (file file' : Bytes) : Prop :=
  ∃ (front : List Bytes) (a b : Bytes), lf ∉ a ∧ lf ∉ b ∧
    file = unlines (front ++ [a, b]) ∧ file' = unlines (front ++ [b, a])

section AddLaws

variable {city city' file : Bytes} {price price' : ℚ} {lines : List Bytes}

/-! ## The laws on lines -/

lemma nameOf_priceLine (h : comma ∉ city) : nameOf (priceLine city price) = some city := by
  rw [nameOf, priceLine, cutAt_append h]
  rfl

/-- The lines of other names are left as they are. -/
lemma filter_ne_setEntry (h : comma ∉ city) :
    ((setEntry city price lines).filter fun line => nameOf line ≠ some city) =
      lines.filter fun line => nameOf line ≠ some city := by
  rw [setEntry, List.filter_append, List.filter_filter]
  simp [nameOf_priceLine h]

/-- The new entry is the only line with the name of the city. -/
lemma filter_eq_setEntry (h : comma ∉ city) :
    ((setEntry city price lines).filter fun line => nameOf line = some city) =
      [priceLine city price] := by
  rw [setEntry, List.filter_append, List.filter_filter]
  simp [nameOf_priceLine h]

/-- **The last entry of a city counts.** -/
lemma setEntry_setEntry (h : comma ∉ city) :
    setEntry city price' (setEntry city price lines) = setEntry city price' lines := by
  conv_lhs => rw [setEntry, filter_ne_setEntry h]
  rfl

/-- The entries of two cities stand behind the lines of neither, in the order in which they were
set. -/
lemma setEntry_setEntry_of_ne (hne : city ≠ city') (h : comma ∉ city) :
    setEntry city' price' (setEntry city price lines) =
      (lines.filter fun line => nameOf line ≠ some city ∧ nameOf line ≠ some city') ++
        [priceLine city price, priceLine city' price'] := by
  have hkept : ([priceLine city price].filter fun line => nameOf line ≠ some city') =
      [priceLine city price] := by
    simp [nameOf_priceLine h, hne]
  rw [setEntry, setEntry, List.filter_append, List.filter_filter, hkept, List.append_assoc]
  congr 1
  refine List.filter_congr fun line _ => ?_
  simp [Bool.and_comm]

/-! ## `add` on files -/

/-- For a name without separators, the copy loop finds the lines with this name, though it compares
a copy that is cut at the first line end. -/
lemma entryName_eq_iff_nameOf (hcomma : comma ∉ city) (hcr : cr ∉ city) (hlf : lf ∉ city)
    {line : Bytes} : entryName line = some city ↔ nameOf line = some city := by
  constructor
  · intro hname
    obtain ⟨-, t, rfl⟩ := entryName_eq_some_iff.mp hname
    rw [nameOf, cutAt_append hcomma]
    rfl
  · intro hname
    obtain ⟨⟨name, t⟩, hcut, rfl⟩ := Option.map_eq_some_iff.mp hname
    exact entryName_eq_some_iff.mpr ⟨⟨hcomma, hcr, hlf⟩, t, (cutAt_eq_some_iff.mp hcut).1⟩

/-- The new line is a line of a prices file. -/
lemma ShortEntry.initialLine (h : ShortEntry city price) : InitialLine (priceLine city price) where
  lf_notMem := notMem_priceLine (by simp) h.lf_notMem
  zero_notMem := notMem_priceLine (by simp) h.zero_notMem
  length_lt := h.length_lt

/-- Setting an entry gives lines of a prices file. -/
lemma ShortEntry.setEntry (h : ShortEntry city price) (hlines : ∀ line ∈ lines, InitialLine line) :
    ∀ line ∈ setEntry city price lines, InitialLine line :=
  List.forall_mem_append.mpr ⟨fun line hline => hlines line (List.mem_of_mem_filter hline),
    List.forall_mem_singleton.mpr h.initialLine⟩

/-- **`add` is `setEntry` on the lines of the file.** -/
lemma cmdAdd_eq_setEntry (hcomma : comma ∉ city) (hcr : cr ∉ city) (hlf : lf ∉ city) (price : ℚ)
    (hlines : ∀ line ∈ lines, InitialLine line) :
    cmdAdd city price (unlines lines) = unlines (setEntry city price lines) := by
  have hfilter : (lines.filter fun line => entryName line ≠ some city) =
      lines.filter fun line => nameOf line ≠ some city := by
    refine List.filter_congr fun line _ => ?_
    simp only [ne_eq, entryName_eq_iff_nameOf hcomma hcr hlf]
  rw [cmdAdd_unlines city price fun line hline => (hlines line hline).fileLine,
    flatMap_rewriteLine city fun line hline => (hlines line hline).length_lt, hfilter]
  rfl

/-- A file of whole lines is its lines written one after the other. -/
lemma WholeLines.exists_lines (h : WholeLines file) :
    ∃ lines : List Bytes, file = unlines lines ∧ ∀ line ∈ lines, InitialLine line := by
  refine ⟨(cutLines file).1, ?_, h.toShortLines.parts.1⟩
  conv_lhs => rw [← unlines_cutLines file, h.rest_eq_nil, List.append_nil]

/-- The lines of a file written from lines. -/
lemma cutLines_of_initialLine (hlines : ∀ line ∈ lines, InitialLine line) :
    cutLines (unlines lines) = (lines, []) := by
  have hcut := cutLines_unlines (fun line hline => (hlines line hline).lf_notMem) []
  simpa [cutLines] using hcut

/-- What becomes of each line. -/
lemma ShortEntry.entryAdded (h : ShortEntry city price)
    (hlines : ∀ line ∈ lines, InitialLine line) :
    EntryAdded city price (unlines lines) (cmdAdd city price (unlines lines)) := by
  have hadd := cmdAdd_eq_setEntry h.comma_notMem h.cr_notMem h.lf_notMem price hlines
  have hold := cutLines_of_initialLine hlines
  have hnew := cutLines_of_initialLine (h.setEntry hlines)
  rw [hadd]
  refine ⟨?_, ?_, ?_, ?_⟩
  · rw [hnew]
  · rw [hnew]
    exact filter_eq_setEntry h.comma_notMem
  · rw [hnew]
    exact List.getLast?_concat
  · rw [hnew, hold]
    exact filter_ne_setEntry h.comma_notMem

/-- The entries of two cities in the order in which they are added. -/
lemma ShortEntry.cmdAdd_cmdAdd (h : ShortEntry city price) (h' : ShortEntry city' price')
    (hne : city ≠ city') (hlines : ∀ line ∈ lines, InitialLine line) :
    cmdAdd city' price' (cmdAdd city price (unlines lines)) =
      unlines ((lines.filter fun line => nameOf line ≠ some city ∧ nameOf line ≠ some city') ++
        [priceLine city price, priceLine city' price']) := by
  rw [cmdAdd_eq_setEntry h.comma_notMem h.cr_notMem h.lf_notMem price hlines,
    cmdAdd_eq_setEntry h'.comma_notMem h'.cr_notMem h'.lf_notMem price' (h.setEntry hlines),
    setEntry_setEntry_of_ne hne h.comma_notMem]

/-- **The laws of `add`.**  It leaves one line with the name of the city, at the end, and the other
lines as they were; a second `add` of the city takes the place of the first; and two cities can be
added in either order, up to the order of the last two lines. -/
theorem cmdAdd_laws (hfile : WholeLines file) (h : ShortEntry city price)
    (h' : ShortEntry city' price') :
    EntryAdded city price file (cmdAdd city price file) ∧
      (∀ newPrice, cmdAdd city newPrice (cmdAdd city price file) = cmdAdd city newPrice file) ∧
      (city ≠ city' → LastTwoSwapped (cmdAdd city' price' (cmdAdd city price file))
        (cmdAdd city price (cmdAdd city' price' file))) := by
  obtain ⟨lines, rfl, hlines⟩ := hfile.exists_lines
  have hadd (p : ℚ) {ls : List Bytes} (hls : ∀ line ∈ ls, InitialLine line) :
      cmdAdd city p (unlines ls) = unlines (setEntry city p ls) :=
    cmdAdd_eq_setEntry h.comma_notMem h.cr_notMem h.lf_notMem p hls
  refine ⟨h.entryAdded hlines, ?_, ?_⟩
  · intro newPrice
    calc cmdAdd city newPrice (cmdAdd city price (unlines lines))
      _ = cmdAdd city newPrice (unlines (setEntry city price lines)) := by
        rw [hadd price hlines]
      _ = unlines (setEntry city newPrice (setEntry city price lines)) :=
        hadd newPrice (h.setEntry hlines)
      _ = unlines (setEntry city newPrice lines) := by rw [setEntry_setEntry h.comma_notMem]
      _ = cmdAdd city newPrice (unlines lines) := (hadd newPrice hlines).symm
  · intro hne
    refine ⟨_, _, _, h.initialLine.lf_notMem, h'.initialLine.lf_notMem,
      h.cmdAdd_cmdAdd h' hne hlines, ?_⟩
    rw [h'.cmdAdd_cmdAdd h hne.symm hlines]
    simp only [and_comm]

/-- A file with a comment, a marker, and an entry of the city that ends with a carriage return. -/
theorem cmdAdd_laws_haifa :
    EntryAdded (ascii "Haifa") (1 / 2) (ascii "#x,1\n-Haifa\nHaifa,0.3\r\n")
        (cmdAdd (ascii "Haifa") (1 / 2) (ascii "#x,1\n-Haifa\nHaifa,0.3\r\n")) ∧
      (∀ newPrice, cmdAdd (ascii "Haifa") newPrice
          (cmdAdd (ascii "Haifa") (1 / 2) (ascii "#x,1\n-Haifa\nHaifa,0.3\r\n")) =
        cmdAdd (ascii "Haifa") newPrice (ascii "#x,1\n-Haifa\nHaifa,0.3\r\n")) ∧
      (ascii "Haifa" ≠ ascii "Eilat" → LastTwoSwapped
        (cmdAdd (ascii "Eilat") 1
          (cmdAdd (ascii "Haifa") (1 / 2) (ascii "#x,1\n-Haifa\nHaifa,0.3\r\n")))
        (cmdAdd (ascii "Haifa") (1 / 2)
          (cmdAdd (ascii "Eilat") 1 (ascii "#x,1\n-Haifa\nHaifa,0.3\r\n")))) :=
  cmdAdd_laws (by decide +kernel) (by decide +kernel) (by decide +kernel)

end AddLaws

end ParkingSystem
