import ParkingSystem.Db.PriceFile

/-!
# What an `add` means to the reloader

`cmd_add` copies the prices file and writes the new entry behind it.  If the last line of the file
has no newline, the new entry becomes the end of that line: the city gets no price, and the line may
mean something else than before.  So `add` is what it should be for the reloader if and only if the
file does not end with such a line, or the line is an entry of the city, which goes.
-/

namespace ParkingSystem

open Foundation

/-- A name with which the entry of a city can be read back. -/
@[mk_iff]
structure AddName (city : Bytes) : Prop where
  zero_notMem : (0 : UInt8) ∉ city
  comma_notMem : comma ∉ city
  cr_notMem : cr ∉ city
  lf_notMem : lf ∉ city
  head_ne_hash : city.head? ≠ some hash
  head_ne_dash : city.head? ≠ some dash

instance (city : Bytes) : Decidable (AddName city) := decidable_of_iff' _ (addName_iff city)

/-- A prices file without NUL whose lines fit the buffer, an unfinished last one included. -/
@[mk_iff]
structure ShortLines (file : Bytes) : Prop where
  zero_notMem : (0 : UInt8) ∉ file
  length_lt : ∀ line ∈ getlines file, line.length < 255

instance (file : Bytes) : Decidable (ShortLines file) := decidable_of_iff' _ (shortLines_iff file)

/-- The prices and removals that the reloader reads from a file. -/
def fileOps (stod : Bytes → Option ℚ) (file : Bytes) : List (LogOp Bytes ℚ) :=
  (readChanges stod file).map Change.op

/-- After `add` the last entry of the city is the new price, and every other city has the same
entries as before. -/
def AddReplayed (stod : Bytes → Option ℚ) (city : Bytes) (price : ℚ) (file : Bytes) : Prop :=
  lastWrite city (fileOps stod (cmdAdd city price file)) = some (some (roundTo 6 price)) ∧
    ∀ other ≠ city, (fileOps stod (cmdAdd city price file)).filter (fun op => op.key = other) =
      (fileOps stod file).filter fun op => op.key = other

/-- The operation that the reloader reads from a line. -/
def lineOp (stod : Bytes → Option ℚ) (line : Bytes) : Option (LogOp Bytes ℚ) :=
  (readChange stod line).map Change.op

section AddReplay

variable {stod : Bytes → Option ℚ} {city file : Bytes} {price : ℚ}

lemma fileOps_eq (stod : Bytes → Option ℚ) (file : Bytes) :
    fileOps stod file = (getlines file).filterMap (lineOp stod) := by
  rw [fileOps, readChanges, List.map_filterMap]
  rfl

/-- The lines of a file, and its unfinished last line. -/
lemma ShortLines.parts (h : ShortLines file) :
    (∀ line ∈ (cutLines file).1, InitialLine line) ∧
      (0 : UInt8) ∉ (cutLines file).2 ∧ (cutLines file).2.length < 255 := by
  refine ⟨fun line hline => ⟨notMem_of_mem_cutLines hline, fun hmem => ?_, ?_⟩, fun hmem => ?_, ?_⟩
  · exact h.zero_notMem (mem_of_mem_cutLines hline hmem)
  · exact h.length_lt line (List.mem_append_left _ hline)
  · exact h.zero_notMem (mem_of_mem_cutLines_rest hmem)
  · by_cases hnil : (cutLines file).2 = []
    · simp [hnil]
    · exact h.length_lt _ (List.mem_append_right _ (by simp [hnil]))

/-- The lines that the reloader reads after `add`. -/
lemma getlines_cmdAdd (hfile : ShortLines file) (hcity : AddName city) (price : ℚ) :
    getlines (cmdAdd city price file) =
      ((cutLines file).1.filter fun line => entryName line ≠ some city) ++
        [(if entryName (cutLines file).2 = some city then [] else (cutLines file).2) ++
          priceLine city price] := by
  obtain ⟨hlines, h0, hlen⟩ := hfile.parts
  have hrest := notMem_cutLines_rest file
  conv_lhs => rw [← unlines_cutLines file]
  rw [cmdAdd_unlines_rest city price (fun l hl => (hlines l hl).fileLine) hrest h0
      (hlen.trans (by decide)),
    flatMap_rewriteLine city fun l hl => (hlines l hl).length_lt]
  refine getlines_unlines (List.forall_mem_append.mpr ⟨fun l hl => ?_, ?_⟩)
  · exact notMem_of_mem_cutLines (List.mem_of_mem_filter hl)
  · refine List.forall_mem_singleton.mpr ?_
    refine List.not_mem_append ?_ (notMem_priceLine (by simp) hcity.lf_notMem)
    split_ifs
    · simp
    · exact hrest

/-- Leaving out the entries of a city does not change what is read of other cities. -/
lemma filter_ops_filter (hcity : AddName city) {other : Bytes} (hne : other ≠ city)
    (lines : List Bytes) :
    (((lines.filter fun line => entryName line ≠ some city).filterMap (lineOp stod)).filter
        fun op => op.key = other) =
      (lines.filterMap (lineOp stod)).filter fun op => op.key = other := by
  induction lines with
  | nil => rfl
  | cons line lines ih =>
    by_cases hname : entryName line = some city
    · rw [List.filter_cons_of_neg (by simpa using hname), ih]
      cases hop : lineOp stod line with
      | none => rw [List.filterMap_cons_none hop]
      | some op =>
        obtain ⟨c, hc, rfl⟩ := Option.map_eq_some_iff.mp hop
        have hkey := key_of_entryName hname hcity.zero_notMem hcity.head_ne_dash hc
        rw [List.filterMap_cons_some hop, List.filter_cons_of_neg (by simpa [hkey] using hne.symm)]
    · rw [List.filter_cons_of_pos (by simpa using hname)]
      cases hop : lineOp stod line with
      | none => rw [List.filterMap_cons_none hop, List.filterMap_cons_none hop, ih]
      | some op =>
        rw [List.filterMap_cons_some hop, List.filterMap_cons_some hop, List.filter_cons,
          List.filter_cons, ih]

/-- The new entry is not read from the end of another line. -/
lemma entryName_append_priceLine (hcity : AddName city) {rest : Bytes} (hne : rest ≠ [])
    (hname : entryName rest ≠ some city) :
    entryName (rest ++ priceLine city price) ≠ some city := by
  intro hnew
  obtain ⟨hsep, t, ht⟩ := entryName_eq_some_iff.mp hnew
  by_cases hcomma : comma ∈ rest
  · have hsome : cutAt comma rest ≠ none := mt cutAt_eq_none_iff.mp (not_not.mpr hcomma)
    obtain ⟨⟨a, b⟩, hcut⟩ := Option.ne_none_iff_exists'.mp hsome
    obtain ⟨rfl, ha⟩ := cutAt_eq_some_iff.mp hcut
    rw [List.append_assoc, List.cons_append] at ht
    obtain rfl := (append_cons_inj ht ha hsep.1).1
    exact hname (entryName_eq_some_iff.mpr ⟨hsep, b, rfl⟩)
  · rw [priceLine, ← List.append_assoc] at ht
    have hfront : comma ∉ rest ++ city := by
      exact List.not_mem_append hcomma hsep.1
    have heq := (append_cons_inj ht hfront hsep.1).1
    exact hne (List.append_left_eq_self.mp heq)

/-- A city whose last entry is a price has an entry line. -/
lemma exists_put_of_lastWrite {log : List (LogOp Bytes ℚ)} {p : ℚ}
    (h : lastWrite city log = some (some p)) : .put city p ∈ log := by
  rw [lastWrite_eq_find?] at h
  obtain ⟨op, hfind, hvalue⟩ := Option.map_eq_some_iff.mp h
  have hmem := List.mem_reverse.mp (List.mem_of_find?_eq_some hfind)
  have hkey : op.key = city := by simpa using List.find?_some hfind
  cases op with
  | put k v =>
    obtain rfl : k = city := hkey
    obtain rfl : v = p := Option.some.inj hvalue
    exact hmem
  | del k => cases hvalue

/-- **What an `add` means to the reloader.**  The city gets the new price and the other cities keep
their entries, if and only if the file ends with a newline, or its unfinished last line is an entry
of the city. -/
theorem addReplayed_iff (hfile : ShortLines file) (hcity : AddName city)
    (hread : StodReadsBack stod price) :
    AddReplayed stod city price file ↔
      (cutLines file).2 = [] ∨ entryName (cutLines file).2 = some city := by
  obtain ⟨hlines, h0, -⟩ := hfile.parts
  have hnew := getlines_cmdAdd hfile hcity price
  constructor
  · rintro ⟨hlast, -⟩
    by_contra hcon
    rw [not_or] at hcon
    rw [if_neg hcon.2] at hnew
    rw [fileOps_eq, hnew] at hlast
    -- a line that sets the price of the city is an entry of it
    obtain ⟨line, hline, hop⟩ := List.mem_filterMap.mp (exists_put_of_lastWrite hlast)
    obtain ⟨c, hc, hput⟩ := Option.map_eq_some_iff.mp hop
    rcases List.mem_append.mp hline with hline | hline
    · obtain ⟨hmem, hname⟩ := List.mem_filter.mp hline
      have hzero := (hlines line hmem).zero_notMem
      have hentry := entryName_of_put hzero hcity.cr_notMem hcity.lf_notMem hc hput
      simp [hentry] at hname
    · rw [List.mem_singleton.mp hline] at hc
      have hzero : (0 : UInt8) ∉ (cutLines file).2 ++ priceLine city price := by
        exact List.not_mem_append h0 (notMem_priceLine (by simp) hcity.zero_notMem)
      exact entryName_append_priceLine hcity hcon.1 hcon.2
        (entryName_of_put hzero hcity.cr_notMem hcity.lf_notMem hc hput)
  · intro hend
    have hfront : (if entryName (cutLines file).2 = some city then [] else (cutLines file).2) =
        [] := by
      rcases hend with hnil | hname
      · simp [hnil]
      · rw [if_pos hname]
    have hop : lineOp stod (priceLine city price) = some (.put city (roundTo 6 price)) := by
      rw [lineOp, readChange_priceLine hcity.comma_notMem hcity.cr_notMem hcity.head_ne_hash
        hcity.head_ne_dash hread]
      simp [Change.op, cstr_eq_self hcity.zero_notMem]
    rw [hfront, List.nil_append] at hnew
    constructor
    · rw [fileOps_eq, hnew, List.filterMap_append, List.filterMap_cons_some hop,
        List.filterMap_nil, lastWrite_concat]
      simp [LogOp.key, LogOp.value]
    · intro other hne
      have hlast : ((if (cutLines file).2 = [] then [] else [(cutLines file).2]).filterMap
          (lineOp stod)).filter (fun op => op.key = other) = [] := by
        rcases hend with hnil | hname
        · simp [hnil]
        · rw [← filter_ops_filter hcity hne]
          split_ifs <;> simp [hname]
      rw [fileOps_eq, fileOps_eq, hnew, List.filterMap_append, List.filter_append,
        filter_ops_filter hcity hne, List.filterMap_cons_some hop, getlines, List.filterMap_append,
        List.filter_append, hlast]
      simp [LogOp.key, hne.symm]

/-- The unfinished last line is an entry of the city. -/
theorem addReplayed_iff_own_entry :
    AddReplayed readDecimal (ascii "Haifa") (1 / 2) (ascii "-Eilat\n#x\nHaifa,0.3") :=
  (addReplayed_iff (by decide +kernel) (by decide) (readDecimal_printFixed 6 (1 / 2))).mpr
    (.inr (by decide +kernel))

/-- The new entry is appended to the price of another city. -/
theorem not_every_add_replayed :
    ¬ ∀ (stod : Bytes → Option ℚ) (city : Bytes) (price : ℚ) (file : Bytes),
      ShortLines file → AddName city → StodReadsBack stod price →
        AddReplayed stod city price file := by
  intro h
  have hlast := (h readDecimal (ascii "TelAviv") (1 / 2) (ascii "Haifa,0.3") (by decide +kernel)
    (by decide) (readDecimal_printFixed 6 (1 / 2))).1
  revert hlast
  decide +kernel

end AddReplay

end ParkingSystem
