import ParkingSystem.Db.PriceFile

/-!
# The two loaders agree on the documented format

`PriceTable::loadFromFile` reads the prices file with `fgets` into a buffer of 256 bytes and cuts
each string at its line end; `PriceReloader::reload` reads it with `std::getline` into a list of
changes first.  On a file in the documented format both fill the pricing table with the same rows.

What carries the proof is that either loader writes the first `SHM_MAX_CITIES` entries it reads
(`live_loadLines_take`, `live_fillPrices_take`), so that it is enough to compare what they read from
one line.
-/

namespace ParkingSystem

open Foundation

section Format

variable (stod : Bytes → Option ℚ) (atof : Bytes → ℚ)

/-- The lines of the documented format: empty lines, comments, markers of removed cities, and
entries with a numeral that `stod` and `atof` read alike. -/
inductive LineForm : Bytes → Prop
  /-- An empty line. -/
  | empty : LineForm []
  /-- A comment. -/
  | remark (text : Bytes) : LineForm (hash :: text)
  /-- `-CITY`. -/
  | marker {city : Bytes} : comma ∉ city → LineForm (dash :: city)
  /-- `CITY,PRICE`. -/
  | entry {city price : Bytes} : comma ∉ city → city.head? ≠ some hash → city.head? ≠ some dash →
      stod price = some (atof price) → LineForm (city ++ comma :: price)

/-- A line of a file in the documented format, without its line end. -/
structure DocumentedLine (line : Bytes) : Prop where
  form : LineForm stod atof line
  zero_notMem : (0 : UInt8) ∉ line
  cr_notMem : cr ∉ line
  lf_notMem : lf ∉ line
  length_le : line.length ≤ 254

/-- The lines of a file without their line ends `\n` or `\r\n`; the last one, which has no newline,
may be empty. -/
def documentLines (file : Bytes) : List Bytes :=
  (cutLines file).1.map stripCr ++ [(cutLines file).2]

end Format

section Agreement

variable {stod : Bytes → Option ℚ} {atof : Bytes → ℚ} {line : Bytes}

/-! ## One line -/

/-- What `loadFromFile` reads from a line does not depend on its line end. -/
lemma DocumentedLine.loadEntry_append (h : DocumentedLine stod atof line) {rest : Bytes}
    (hrest : ∀ b ∈ rest.head?, b = cr ∨ b = lf) :
    loadEntry atof (line ++ rest) = loadEntry atof line := by
  have htext : ∀ b ∈ line, b ≠ 0 ∧ b ≠ cr ∧ b ≠ lf := by
    intro b hb
    exact ⟨ne_of_mem_of_not_mem hb h.zero_notMem, ne_of_mem_of_not_mem hb h.cr_notMem,
      ne_of_mem_of_not_mem hb h.lf_notMem⟩
  have hcut : ∀ rest : Bytes, (∀ b ∈ rest.head?, b = cr ∨ b = lf) →
      (cstr (line ++ rest)).takeWhile (fun b => b ≠ cr ∧ b ≠ lf) = line := by
    intro rest hrest
    have hcstr : cstr (line ++ rest) = line ++ cstr rest :=
      List.takeWhile_append_of_pos fun b hb => by simpa using (htext b hb).1
    rw [hcstr, List.takeWhile_append_of_pos fun b hb => by simpa using (htext b hb).2]
    have hstop : (cstr rest).takeWhile (fun b => b ≠ cr ∧ b ≠ lf) = [] := by
      cases rest with
      | nil => rfl
      | cons b rest =>
        have hb : b ≠ 0 ∧ ¬ (b ≠ cr ∧ b ≠ lf) := by
          rcases hrest b rfl with rfl | rfl <;> decide
        unfold cstr
        rw [List.takeWhile_cons_of_pos (by simpa using hb.1),
          List.takeWhile_cons_of_neg (by simpa using hb.2)]
    rw [hstop, List.append_nil]
  have hline := hcut [] (by simp)
  rw [List.append_nil] at hline
  unfold loadEntry
  rw [hcut rest hrest, hline]

/-- **Both loaders read the same entry from a line.** -/
lemma DocumentedLine.loadEntry_eq (h : DocumentedLine stod atof line) :
    loadEntry atof line = (readChange stod line).bind Change.entry := by
  have hcstr : cstr line = line := cstr_eq_self h.zero_notMem
  have hself : (line.takeWhile fun b => b ≠ cr ∧ b ≠ lf) = line := by
    rw [List.takeWhile_eq_self_iff]
    intro b hb
    simpa using ⟨ne_of_mem_of_not_mem hb h.cr_notMem, ne_of_mem_of_not_mem hb h.lf_notMem⟩
  unfold loadEntry readChange
  rw [hcstr, hself, stripCr_of_notMem h.cr_notMem]
  cases h.form with
  | empty => simp
  | remark text => simp
  | @marker city hcity =>
    have hcomma : comma ∉ dash :: city := by
      rw [List.mem_cons, not_or]
      exact ⟨by decide, hcity⟩
    have hhash : dash ≠ hash := by decide
    simp [cutAt_eq_none_iff.mpr hcomma, hhash, Change.entry]
  | @entry city price hcity hhash hdash hprice =>
    have hne : city ++ comma :: price ≠ [] := by simp
    have hhash' : (city ++ comma :: price).head? ≠ some hash :=
      head?_append_comma_ne (by decide) hhash
    have hdash' : (city ++ comma :: price).head? ≠ some dash :=
      head?_append_comma_ne (by decide) hdash
    simp only [hne, hhash', hdash', or_self, if_false, cutAt_append hcity, Option.map_some, hprice]
    rfl

/-! ## The file -/

/-- Behind the text of a line there is its line end. -/
lemma exists_lineEnd (raw : Bytes) :
    ∃ tail : Bytes, raw ++ [lf] = stripCr raw ++ tail ∧ ∀ b ∈ tail, b = cr ∨ b = lf := by
  unfold stripCr
  split_ifs with hcr
  · refine ⟨[cr, lf], ?_, by simp⟩
    have hraw := List.dropLast_append_getLast? cr hcr
    conv_lhs => rw [← hraw]
    simp
  · exact ⟨[lf], rfl, by simp⟩

/-- The strings that `fgets` reads of a terminated line have the entry of the line, and no other
one. -/
lemma filterMap_loadEntry_line {raw : Bytes} (hlf : lf ∉ raw)
    (h : DocumentedLine stod atof (stripCr raw)) (s : Bytes) :
    (fgetsAll maxLine (raw ++ lf :: s)).filterMap (loadEntry atof) =
      (loadEntry atof (stripCr raw)).toList ++
        (fgetsAll maxLine s).filterMap (loadEntry atof) := by
  obtain ⟨pieces, hall, hflat⟩ := fgetsAll_pieces (show 2 ≤ maxLine by norm_num) hlf s
  obtain ⟨tail, htail, hbytes⟩ := exists_lineEnd raw
  have hlen : maxLine - 1 = (stripCr raw).length + (maxLine - 1 - (stripCr raw).length) := by
    have := h.length_le
    simp only [maxLine]
    omega
  -- the text fits the buffer together with a byte of the line end
  have hfirst : loadEntry atof ((raw ++ [lf]).take (maxLine - 1)) =
      loadEntry atof (stripCr raw) := by
    rw [htail, hlen, List.take_length_add_append]
    apply h.loadEntry_append
    intro b hb
    exact hbytes b (List.mem_of_mem_take (List.mem_of_mem_head? hb))
  -- what does not fit has no entry
  have hlater : pieces.filterMap (loadEntry atof) = [] := by
    rw [List.filterMap_eq_nil_iff]
    intro piece hpiece
    apply loadEntry_eq_none
    intro hmem
    have hdrop : comma ∈ (raw ++ [lf]).drop (maxLine - 1) := by
      rw [← hflat]
      exact List.mem_flatten.mpr ⟨piece, hpiece, hmem⟩
    rw [htail, hlen, List.drop_length_add_append] at hdrop
    rcases hbytes _ (List.mem_of_mem_drop hdrop) with hc | hc
    · exact absurd hc (by decide)
    · exact absurd hc (by decide)
  rw [hall, List.cons_append, List.filterMap_cons, List.filterMap_append, hfirst, hlater]
  cases loadEntry atof (stripCr raw) <;> rfl

/-- The strings that `fgets` reads of terminated lines, and of what follows them. -/
lemma filterMap_loadEntry_unlines {raws : List Bytes} (hlf : ∀ raw ∈ raws, lf ∉ raw)
    (h : ∀ raw ∈ raws, DocumentedLine stod atof (stripCr raw)) (s : Bytes) :
    (fgetsAll maxLine (unlines raws ++ s)).filterMap (loadEntry atof) =
      (raws.map stripCr).filterMap (loadEntry atof) ++
        (fgetsAll maxLine s).filterMap (loadEntry atof) := by
  induction raws with
  | nil => rfl
  | cons raw raws ih =>
    have htail := ih (fun r hr => hlf r (by simp [hr])) fun r hr => h r (by simp [hr])
    rw [unlines_cons, List.append_assoc, List.cons_append,
      filterMap_loadEntry_line (hlf raw (by simp)) (h raw (by simp)), htail, List.map_cons,
      List.filterMap_cons]
    cases loadEntry atof (stripCr raw) <;> rfl

/-- The strings that `fgets` reads of a file have the entries of its lines. -/
lemma filterMap_loadEntry_file {file : Bytes}
    (h : ∀ line ∈ documentLines file, DocumentedLine stod atof line) :
    (fgetsAll maxLine file).filterMap (loadEntry atof) =
      (documentLines file).filterMap (loadEntry atof) := by
  have hlast : (fgetsAll maxLine (cutLines file).2).filterMap (loadEntry atof) =
      [(cutLines file).2].filterMap (loadEntry atof) := by
    have hdoc := h (cutLines file).2 (by simp [documentLines])
    by_cases hnil : (cutLines file).2 = []
    · rw [hnil]
      rfl
    · have hlen := hdoc.length_le
      rw [fgetsAll_rest hdoc.lf_notMem hnil (by simp only [maxLine]; omega)]
  have hraws : ∀ raw ∈ (cutLines file).1, DocumentedLine stod atof (stripCr raw) :=
    fun raw hraw => h (stripCr raw) (List.mem_append_left _ (List.mem_map_of_mem hraw))
  conv_lhs => rw [← unlines_cutLines file]
  rw [filterMap_loadEntry_unlines (fun raw hraw => notMem_of_mem_cutLines hraw) hraws, hlast,
    ← List.filterMap_append]
  rfl

/-- The changes that the reloader reads of a file are those of its lines. -/
lemma readChanges_eq {file : Bytes}
    (h : ∀ line ∈ documentLines file, DocumentedLine stod atof line) :
    readChanges stod file = (documentLines file).filterMap (readChange stod) := by
  have hstrip : ∀ raw : Bytes, stripCr (stripCr raw) = stripCr raw →
      readChange stod (stripCr raw) = readChange stod raw := by
    intro raw hraw
    simp only [readChange, hraw]
  have hlines : ((cutLines file).1.map stripCr).filterMap (readChange stod) =
      (cutLines file).1.filterMap (readChange stod) := by
    rw [List.filterMap_map]
    apply List.filterMap_congr
    intro raw hraw
    apply hstrip
    exact stripCr_of_notMem (h _ (List.mem_append_left _ (List.mem_map_of_mem hraw))).cr_notMem
  unfold readChanges getlines documentLines
  rw [List.filterMap_append, List.filterMap_append, hlines]
  congr 1
  split_ifs with hnil
  · rw [hnil]
    rfl
  · rfl

/-- A line that is neither empty nor a comment asks for a change. -/
lemma DocumentedLine.isSome_readChange (h : DocumentedLine stod atof line) (hempty : line ≠ [])
    (hremark : line.head? ≠ some hash) : (readChange stod line).isSome := by
  unfold readChange
  rw [stripCr_of_notMem h.cr_notMem]
  cases h.form with
  | empty => exact absurd rfl hempty
  | remark text => exact absurd rfl hremark
  | @marker city hcity =>
    have hhash : dash ≠ hash := by decide
    simp [hhash]
  | @entry city price hcity hhash hdash hprice =>
    have hdash' : (city ++ comma :: price).head? ≠ some dash :=
      head?_append_comma_ne (by decide) hdash
    simp only [hempty, hremark, hdash', or_self, if_false, cutAt_append hcity, Option.map_some,
      hprice]
    rfl

/-- The reloader finds a change in a file with an entry or a marker. -/
lemma readChanges_ne_nil {file : Bytes}
    (h : ∀ line ∈ documentLines file, DocumentedLine stod atof line)
    (hsome : ∃ line ∈ documentLines file, line ≠ [] ∧ line.head? ≠ some hash) :
    readChanges stod file ≠ [] := by
  obtain ⟨line, hline, hempty, hremark⟩ := hsome
  intro hnil
  rw [readChanges_eq h, List.filterMap_eq_nil_iff] at hnil
  have hchange := (h line hline).isSome_readChange hempty hremark
  rw [hnil line hline] at hchange
  exact absurd hchange (by decide)

/-- **The two loaders agree.**  On a file in the documented format with at least one entry or marker
the two loaders fill the pricing table with the same rows, at most `SHM_MAX_CITIES` of them,
whatever it held before; so every lookup has the same answer. -/
theorem loaders_agree {file : Bytes}
    (h : ∀ line ∈ documentLines file, DocumentedLine stod atof line)
    (hsome : ∃ line ∈ documentLines file, line ≠ [] ∧ line.head? ≠ some hash) (db : Database)
    (shm shm' : PriceArea) :
    let loaded := (loadFromFile atof shm file).2
    let reloaded := (reload stod (some file) db shm').2.2
    loaded.priceCount = reloaded.priceCount ∧ loaded.priceCount ≤ shmMaxCities ∧
      loaded.live = reloaded.live ∧ ∀ city, lookup loaded city = lookup reloaded city := by
  have hlive : (loadFromFile atof shm file).2.live =
      (reload stod (some file) db shm').2.2.live := by
    have hentries : (documentLines file).filterMap (loadEntry atof) =
        (documentLines file).filterMap fun line => (readChange stod line).bind Change.entry :=
      List.filterMap_congr fun line hline => (h line hline).loadEntry_eq
    simp only [loadFromFile, reload, readChanges_ne_nil h hsome, if_false]
    rw [live_loadLines_take, live_fillPrices_take, filterMap_loadEntry_file h, readChanges_eq h,
      List.filterMap_filterMap, hentries]
    simp
  refine ⟨?_, PriceArea.priceCount_le _, hlive, lookup_congr hlive⟩
  rw [← PriceArea.length_live, ← PriceArea.length_live, hlive]

/-- Comments, both line ends, a marker, a repeated city and a last line without newline. -/
theorem loaders_agree_mixed_file :
    let file := ascii "# ILS\nHaifa,0.30\r\n-Eilat\n\nHaifa,0.40\nEilat,0.5"
    let loaded := (loadFromFile (fun s => (readDecimal s).getD 0) .zero file).2
    let reloaded := (reload readDecimal (some file) ⟨fun _ => none, []⟩ .zero).2.2
    loaded.live = reloaded.live ∧
      lookup loaded (ascii "Eilat") = lookup reloaded (ascii "Eilat") := by
  intro file loaded reloaded
  have hform : ∀ line ∈ documentLines file,
      LineForm readDecimal (fun s => (readDecimal s).getD 0) line := by
    have hlines : documentLines file = [ascii "# ILS", ascii "Haifa,0.30", ascii "-Eilat", [],
        ascii "Haifa,0.40", ascii "Eilat,0.5"] := by decide +kernel
    have hentry : ∀ city price : Bytes, comma ∉ city → city.head? ≠ some hash →
        city.head? ≠ some dash → (readDecimal price).isSome →
        LineForm readDecimal (fun s => (readDecimal s).getD 0) (city ++ comma :: price) := by
      intro city price hcity hhash hdash hprice
      refine .entry hcity hhash hdash ?_
      obtain ⟨q, hq⟩ := Option.isSome_iff_exists.mp hprice
      rw [hq, Option.getD_some]
    rw [hlines]
    simp only [List.forall_mem_cons, List.not_mem_nil, false_implies, forall_const, and_true]
    exact ⟨.remark (ascii " ILS"),
      hentry (ascii "Haifa") (ascii "0.30") (by decide) (by decide) (by decide) (by decide +kernel),
      .marker (show comma ∉ ascii "Eilat" by decide), .empty,
      hentry (ascii "Haifa") (ascii "0.40") (by decide) (by decide) (by decide) (by decide +kernel),
      hentry (ascii "Eilat") (ascii "0.5") (by decide) (by decide) (by decide) (by decide +kernel)⟩
  have hbytes : ∀ line ∈ documentLines file,
      (0 : UInt8) ∉ line ∧ cr ∉ line ∧ lf ∉ line ∧ line.length ≤ 254 := by decide +kernel
  have hagree := loaders_agree (fun line hline => ⟨hform line hline, (hbytes line hline).1,
    (hbytes line hline).2.1, (hbytes line hline).2.2.1, (hbytes line hline).2.2.2⟩)
    (show ∃ line ∈ documentLines file, line ≠ [] ∧ line.head? ≠ some hash by decide +kernel)
    ⟨fun _ => none, []⟩ .zero .zero
  exact ⟨hagree.2.2.1, hagree.2.2.2 (ascii "Eilat")⟩

end Agreement

end ParkingSystem
