import ParkingSystem.Db.PriceReloader
import ParkingSystem.Db.PriceUpdater

/-!
# The prices file under commands

After any commands the prices file consists of the lines of the initial file that no `add` took
for an entry of its city, followed by what the commands wrote: the current entries of the cities
added, a marker for each `remove`, and what was left of entries that did not fit the buffer when
they were replaced.  `runCommands_unlines` follows this form through a sequence of commands, so
that a result about the loaders only has to say what each of these lines means to them.
-/

namespace ParkingSystem

open Foundation

/-- A name that `price_updater` may be given for a city: it keeps the separators of the prices
file out, and its marker fits the buffer. -/
@[mk_iff]
structure CityName (city : Bytes) : Prop where
  zero_notMem : (0 : UInt8) ∉ city
  comma_notMem : comma ∉ city
  cr_notMem : cr ∉ city
  lf_notMem : lf ∉ city
  head_ne_hash : city.head? ≠ some hash
  head_ne_dash : city.head? ≠ some dash
  length_lt : city.length + 1 < 255

instance (city : Bytes) : Decidable (CityName city) := decidable_of_iff' _ (cityName_iff city)

/-- A line of the initial file. -/
@[mk_iff]
structure InitialLine (line : Bytes) : Prop where
  lf_notMem : lf ∉ line
  zero_notMem : (0 : UInt8) ∉ line
  length_lt : line.length < 255

instance (line : Bytes) : Decidable (InitialLine line) := decidable_of_iff' _ (initialLine_iff line)

/-- A line of the initial file fits the buffer. -/
lemma InitialLine.fileLine {line : Bytes} (h : InitialLine line) : FileLine line :=
  FileLine.of_short h.lf_notMem h.zero_notMem h.length_lt

/-- A command on a proper city name; `P` holds of the price that is added. -/
def Command.Valid (P : ℚ → Prop) (cmd : Command) : Prop :=
  CityName cmd.city ∧ ∀ city price, cmd = .add city price → P price

/-! ## What the commands write -/

/-- A line that a command wrote, or what is left of one. -/
inductive FileEntry where
  /-- The current entry of a city. -/
  | added (city : Bytes) (price : ℚ)
  /-- The marker that removes a city. -/
  | removed (city : Bytes)
  /-- What is left of an entry that was replaced. -/
  | remainder (text : Bytes)

namespace FileEntry

/-- The line in the file. -/
def line : FileEntry → Bytes
  | added city price => priceLine city price
  | removed city => removeLine city
  | remainder text => text

/-- The entry has a proper city name and a price with `P`; a remainder consists of digits and the
point. -/
def Valid (P : ℚ → Prop) : FileEntry → Prop
  | added city price => CityName city ∧ P price
  | removed city => CityName city
  | remainder text => ∀ b ∈ text, isDigit b = true ∨ b = pointByte

/-- What `add` makes of an entry: the entry of the city goes, but for what does not fit the
buffer. -/
def replaced (city : Bytes) : FileEntry → List FileEntry
  | added city' p =>
    if city' = city then
      if (priceLine city' p).length < maxLine - 1 then []
      else [remainder ((priceLine city' p).drop (maxLine - 1))]
    else [added city' p]
  | removed city' => [removed city']
  | remainder text => [remainder text]

end FileEntry

/-- The entries after a command. -/
def Command.entries : Command → List FileEntry → List FileEntry
  | add city price, entries => entries.flatMap (FileEntry.replaced city) ++ [.added city price]
  | remove city, entries => entries ++ [.removed city]

/-- The lines of the initial file that are left after a command. -/
def Command.survivors : Command → List Bytes → List Bytes
  | add city _, lines => lines.filter fun line => entryName line ≠ some city
  | remove _, lines => lines

/-- The file with the given initial lines and entries. -/
def fileOf (lines : List Bytes) (entries : List FileEntry) : Bytes :=
  unlines (lines ++ entries.map FileEntry.line)

section Lines

variable {P : ℚ → Prop} {city : Bytes} {price : ℚ}

/-- The bytes of the city name and the comma fit the buffer. -/
lemma maxLine_sub_one (h : CityName city) :
    maxLine - 1 = city.length + (254 - city.length + 1) := by
  have hlen := h.length_lt
  simp only [maxLine]
  omega

/-- What fits the buffer of an entry is the name and a part of the price. -/
lemma take_priceLine (h : CityName city) :
    (priceLine city price).take (maxLine - 1) =
      city ++ comma :: (printFixed 6 price).take (254 - city.length) := by
  unfold priceLine
  rw [maxLine_sub_one h, List.take_length_add_append, List.take_succ_cons]

/-- Only digits and the point can be left of an entry. -/
lemma drop_priceLine (h : CityName city) :
    (priceLine city price).drop (maxLine - 1) =
      (printFixed 6 price).drop (254 - city.length) := by
  unfold priceLine
  rw [maxLine_sub_one h, List.drop_length_add_append, List.drop_succ_cons]

/-- Digits and the point are neither separators nor the first byte of a special line. -/
lemma digit_or_point_ne {b : UInt8} (h : isDigit b = true ∨ b = pointByte) :
    b ≠ 0 ∧ b ≠ comma ∧ b ≠ cr ∧ b ≠ lf ∧ b ≠ hash ∧ b ≠ dash := by
  refine ⟨?_, ?_, ?_, ?_, ?_, ?_⟩ <;> rintro rfl <;> revert h <;> decide

/-- A printed price holds no separator. -/
lemma printFixed_ne {d : ℕ} {b : UInt8} (h : b ∈ printFixed d price) :
    b ≠ 0 ∧ b ≠ comma ∧ b ≠ cr ∧ b ≠ lf := by
  rcases mem_printFixed h with ⟨rfl, -⟩ | h
  · decide
  · have hne := digit_or_point_ne h.symm
    exact ⟨hne.1, hne.2.1, hne.2.2.1, hne.2.2.2.1⟩

/-- A line end or a NUL in an entry is one in its name. -/
lemma notMem_priceLine {b : UInt8} (hb : b = 0 ∨ b = cr ∨ b = lf) (hcity : b ∉ city) :
    b ∉ priceLine city price := by
  simp only [priceLine, List.mem_append, List.mem_cons, not_or]
  refine ⟨hcity, ?_, fun hmem => ?_⟩
  · rcases hb with rfl | rfl | rfl <;> decide
  · obtain ⟨h0, -, hcr, hlf⟩ := printFixed_ne hmem
    rcases hb with rfl | rfl | rfl
    · exact h0 rfl
    · exact hcr rfl
    · exact hlf rfl

/-- The entry of a city has its name. -/
lemma entryName_priceLine (h : CityName city) : entryName (priceLine city price) = some city :=
  entryName_eq_some_iff.mpr ⟨⟨h.comma_notMem, h.cr_notMem, h.lf_notMem⟩, _, rfl⟩

/-- The lines of entries are lines that the copy loop handles well. -/
lemma FileEntry.Valid.fileLine {e : FileEntry} (h : e.Valid P) : FileLine e.line := by
  cases e with
  | added city price =>
    obtain ⟨hcity, -⟩ := h
    refine ⟨?_, ?_, ?_⟩
    · exact notMem_priceLine (by simp) hcity.lf_notMem
    · exact notMem_priceLine (by simp) hcity.zero_notMem
    · have hpos : 0 < 254 - city.length := by have := hcity.length_lt; omega
      rw [FileEntry.line, drop_priceLine hcity]
      intro hmem
      exact (digit_or_point_ne (mem_drop_printFixed hpos hmem)).2.1 rfl
  | removed city =>
    have hcity : CityName city := h
    apply FileLine.of_short
    · simp only [FileEntry.line, removeLine, List.mem_cons, not_or]
      exact ⟨by decide, hcity.lf_notMem⟩
    · simp only [FileEntry.line, removeLine, List.mem_cons, not_or]
      exact ⟨by decide, hcity.zero_notMem⟩
    · exact hcity.length_lt
  | remainder text =>
    refine ⟨?_, ?_, ?_⟩
    · intro hmem
      exact (digit_or_point_ne (h _ hmem)).2.2.2.1 rfl
    · intro hmem
      exact (digit_or_point_ne (h _ hmem)).1 rfl
    · intro hmem
      exact (digit_or_point_ne (h _ (List.mem_of_mem_drop hmem))).2.1 rfl

/-- The lines of entries have no carriage return. -/
lemma FileEntry.Valid.cr_notMem {e : FileEntry} (h : e.Valid P) : cr ∉ e.line := by
  cases e with
  | added city price => exact notMem_priceLine (by simp) h.1.cr_notMem
  | removed city =>
    have hcity : CityName city := h
    simp only [FileEntry.line, removeLine, List.mem_cons, not_or]
    exact ⟨by decide, hcity.cr_notMem⟩
  | remainder text => exact fun hmem => (digit_or_point_ne (h _ hmem)).2.2.1 rfl

/-- An entry starts with no byte that its name does not start with, but for the comma. -/
lemma head?_append_comma_ne {rest : Bytes} {b : UInt8} (hb : b ≠ comma)
    (hne : city.head? ≠ some b) : (city ++ comma :: rest).head? ≠ some b := by
  rw [List.head?_append]
  cases hc : city.head? with
  | none => simpa using Ne.symm hb
  | some b' => simpa [hc] using hne

/-- The lines of a file of this form are lines that the copy loop handles well. -/
lemma fileLine_of_mem_fileOf {lines : List Bytes} {entries : List FileEntry}
    (hlines : ∀ line ∈ lines, InitialLine line) (hentries : ∀ e ∈ entries, e.Valid P) :
    ∀ line ∈ lines ++ entries.map FileEntry.line, FileLine line := by
  intro line hline
  rcases List.mem_append.mp hline with h | h
  · exact (hlines line h).fileLine
  · obtain ⟨e, he, rfl⟩ := List.mem_map.mp h
    exact (hentries e he).fileLine

/-- The lines of a file of this form are read as they were written. -/
lemma getlines_fileOf {lines : List Bytes} {entries : List FileEntry}
    (hlines : ∀ line ∈ lines, InitialLine line) (hentries : ∀ e ∈ entries, e.Valid P) :
    getlines (fileOf lines entries) = lines ++ entries.map FileEntry.line :=
  getlines_unlines fun line hline => (fileLine_of_mem_fileOf hlines hentries line hline).lf_notMem

/-- The copy loop treats the line of an entry as `replaced` says. -/
lemma FileEntry.Valid.rewriteLine_eq {e : FileEntry} (h : e.Valid P) (city : Bytes) :
    rewriteLine city e.line = (e.replaced city).map FileEntry.line := by
  cases e with
  | added city' p =>
    change rewriteLine city (priceLine city' p) = _
    simp only [rewriteLine, entryName_priceLine h.1, FileEntry.replaced, Option.some.injEq]
    split_ifs <;> rfl
  | removed city' =>
    have hcity : CityName city' := h
    have hcomma : comma ∉ removeLine city' := by
      simp only [removeLine, List.mem_cons, not_or]
      exact ⟨by decide, hcity.comma_notMem⟩
    simp [rewriteLine, FileEntry.line, entryName_eq_none hcomma, FileEntry.replaced]
  | remainder text =>
    have hcomma : comma ∉ text := fun hmem => (digit_or_point_ne (h _ hmem)).2.1 rfl
    simp [rewriteLine, FileEntry.line, entryName_eq_none hcomma, FileEntry.replaced]

/-- A replaced entry leaves proper entries. -/
lemma FileEntry.Valid.replaced {e e' : FileEntry} (h : e.Valid P) (he' : e' ∈ e.replaced city) :
    e'.Valid P := by
  cases e with
  | added city' p =>
    simp only [FileEntry.replaced] at he'
    split_ifs at he' with hcity hlen
    · simp at he'
    · rw [List.mem_singleton.mp he']
      intro b hb
      have hpos : 0 < 254 - city'.length := by have := h.1.length_lt; omega
      rw [drop_priceLine h.1] at hb
      exact mem_drop_printFixed hpos hb
    · rw [List.mem_singleton.mp he']
      exact h
  | removed city' =>
    rw [List.mem_singleton.mp he']
    exact h
  | remainder text =>
    rw [List.mem_singleton.mp he']
    exact h

end Lines

/-! ## A sequence of commands -/

/-- The effect of commands on the prices file. -/
def runCommands (cmds : List Command) (file : Bytes) : Bytes :=
  cmds.foldl (fun file cmd => cmd.run file) file

/-- The entries after commands, starting from none. -/
def entriesAfter (cmds : List Command) : List FileEntry :=
  cmds.foldl (fun entries cmd => cmd.entries entries) []

/-- The initial lines left after commands. -/
def survivorsOf (cmds : List Command) (lines : List Bytes) : List Bytes :=
  cmds.foldl (fun lines cmd => cmd.survivors lines) lines

section Commands

variable {P : ℚ → Prop} {cmds : List Command} {lines : List Bytes}

@[simp] lemma entriesAfter_concat (cmds : List Command) (cmd : Command) :
    entriesAfter (cmds ++ [cmd]) = cmd.entries (entriesAfter cmds) := by
  simp [entriesAfter]

@[simp] lemma survivorsOf_concat (cmds : List Command) (cmd : Command) (lines : List Bytes) :
    survivorsOf (cmds ++ [cmd]) lines = cmd.survivors (survivorsOf cmds lines) := by
  simp [survivorsOf]

/-- Surviving lines are initial lines. -/
lemma mem_of_mem_survivors {cmd : Command} {line : Bytes} (h : line ∈ cmd.survivors lines) :
    line ∈ lines := by
  cases cmd with
  | add city price => exact List.mem_of_mem_filter h
  | remove city => exact h

lemma mem_of_mem_survivorsOf {line : Bytes} (h : line ∈ survivorsOf cmds lines) : line ∈ lines := by
  induction cmds using List.reverseRecOn with
  | nil => exact h
  | append_singleton cmds cmd ih =>
    rw [survivorsOf_concat] at h
    exact ih (mem_of_mem_survivors h)

/-- Commands write proper entries. -/
lemma Command.Valid.entries {cmd : Command} (h : cmd.Valid P) {entries : List FileEntry}
    (hentries : ∀ e ∈ entries, e.Valid P) : ∀ e ∈ cmd.entries entries, e.Valid P := by
  cases cmd with
  | add city price =>
    refine List.forall_mem_append.mpr ⟨fun e he => ?_, List.forall_mem_singleton.mpr ?_⟩
    · obtain ⟨e', he', hmem⟩ := List.mem_flatMap.mp he
      exact (hentries e' he').replaced hmem
    · exact ⟨h.1, h.2 city price rfl⟩
  | remove city =>
    exact List.forall_mem_append.mpr ⟨hentries, List.forall_mem_singleton.mpr h.1⟩

lemma entriesAfter_valid (h : ∀ cmd ∈ cmds, cmd.Valid P) : ∀ e ∈ entriesAfter cmds, e.Valid P := by
  induction cmds using List.reverseRecOn with
  | nil => simp [entriesAfter]
  | append_singleton cmds cmd ih =>
    rw [entriesAfter_concat]
    exact (h cmd (by simp)).entries (ih fun c hc => h c (by simp [hc]))

/-- One command on a file of this form gives a file of this form. -/
lemma run_fileOf {cmd : Command} {entries : List FileEntry}
    (hlines : ∀ line ∈ lines, InitialLine line) (hentries : ∀ e ∈ entries, e.Valid P) :
    cmd.run (fileOf lines entries) = fileOf (cmd.survivors lines) (cmd.entries entries) := by
  cases cmd with
  | remove city =>
    rw [Command.run, fileOf, cmdRemove_unlines]
    simp [fileOf, Command.survivors, Command.entries, FileEntry.line]
  | add city price =>
    have hall := fileLine_of_mem_fileOf hlines hentries
    have hold : lines.flatMap (rewriteLine city) =
        lines.filter fun line => entryName line ≠ some city :=
      flatMap_rewriteLine city fun line hline => (hlines line hline).length_lt
    have hnew : (entries.map FileEntry.line).flatMap (rewriteLine city) =
        (entries.flatMap (FileEntry.replaced city)).map FileEntry.line := by
      rw [List.flatMap_map, List.map_flatMap]
      exact List.flatMap_congr fun e he => (hentries e he).rewriteLine_eq city
    rw [Command.run, fileOf, cmdAdd_unlines city price hall, List.flatMap_append, hold, hnew]
    simp [fileOf, Command.survivors, Command.entries, FileEntry.line]

/-- **The prices file after commands.** -/
theorem runCommands_unlines (hlines : ∀ line ∈ lines, InitialLine line)
    (hcmds : ∀ cmd ∈ cmds, cmd.Valid P) :
    runCommands cmds (unlines lines) = fileOf (survivorsOf cmds lines) (entriesAfter cmds) := by
  induction cmds using List.reverseRecOn with
  | nil => simp [runCommands, fileOf, survivorsOf, entriesAfter]
  | append_singleton cmds cmd ih =>
    have hprev : ∀ c ∈ cmds, c.Valid P := fun c hc => hcmds c (by simp [hc])
    rw [survivorsOf_concat, entriesAfter_concat,
      ← run_fileOf (fun l hl => hlines l (mem_of_mem_survivorsOf hl)) (entriesAfter_valid hprev),
      ← ih hprev]
    simp [runCommands]

end Commands

/-! ## What the lines mean to the reloader -/

/-- The change that an entry asks for. -/
def FileEntry.change : FileEntry → Option Change
  | added city price => some ⟨false, city, roundTo 6 price⟩
  | removed city => some ⟨true, city, 0⟩
  | remainder _ => none

/-- `stod` reads back what `%.6f` printed. -/
def StodReadsBack (stod : Bytes → Option ℚ) (price : ℚ) : Prop :=
  stod (printFixed 6 price) = some (roundTo 6 price)

section Changes

variable {stod : Bytes → Option ℚ} {P : ℚ → Prop}

/-- The reloader reads the line that `add` writes as a price. -/
lemma readChange_priceLine {city : Bytes} {price : ℚ} (hcomma : comma ∉ city) (hcr : cr ∉ city)
    (hhash : city.head? ≠ some hash) (hdash : city.head? ≠ some dash)
    (hread : StodReadsBack stod price) :
    readChange stod (priceLine city price) = some ⟨false, city, roundTo 6 price⟩ := by
  have hcr' : cr ∉ priceLine city price := notMem_priceLine (by simp) hcr
  have hne : priceLine city price ≠ [] := by simp [priceLine]
  have hcut : cutAt comma (priceLine city price) = some (city, printFixed 6 price) :=
    cutAt_append hcomma _
  have hhash' : (priceLine city price).head? ≠ some hash :=
    head?_append_comma_ne (by decide) hhash
  have hdash' : (priceLine city price).head? ≠ some dash :=
    head?_append_comma_ne (by decide) hdash
  have hread : stod (printFixed 6 price) = some (roundTo 6 price) := hread
  simp [readChange, stripCr_of_notMem hcr', hne, hhash', hdash', hcut, hread]

/-- A line that `add` takes for an entry of the city is no operation on another city. -/
lemma key_of_entryName {line city : Bytes} (hname : entryName line = some city)
    (h0 : (0 : UInt8) ∉ city) (hdash : city.head? ≠ some dash) {c : Change}
    (hc : readChange stod line = some c) : c.op.key = city := by
  obtain ⟨⟨hcomma, -, -⟩, t, rfl⟩ := entryName_eq_some_iff.mp hname
  obtain ⟨t', hstrip⟩ := stripCr_append_cons (a := city) (show comma ≠ cr by decide) t
  have hhead : (city ++ comma :: t').head? ≠ some dash := head?_append_comma_ne (by decide) hdash
  simp only [readChange, hstrip] at hc
  split_ifs at hc with hskip
  rw [cutAt_append hcomma] at hc
  obtain ⟨p, -, rfl⟩ := Option.map_eq_some_iff.mp hc
  exact cstr_eq_self h0

/-- A line that sets the price of a city is an entry of the city for `add`, unless the name holds a
line end. -/
lemma entryName_of_put {line city : Bytes} {price : ℚ} (h0 : (0 : UInt8) ∉ line)
    (hcr : cr ∉ city) (hlf : lf ∉ city) {c : Change} (hc : readChange stod line = some c)
    (hput : c.op = .put city price) : entryName line = some city := by
  obtain ⟨t, ht⟩ := stripCr_isPrefix line
  simp only [readChange] at hc
  split_ifs at hc with hskip hdash
  · obtain rfl := Option.some.inj hc
    simp [Change.op] at hput
  · cases hcut : cutAt comma (stripCr line) with
    | none => simp [hcut] at hc
    | some p =>
      obtain ⟨name, rest⟩ := p
      obtain ⟨hstrip, hcomma⟩ := cutAt_eq_some_iff.mp hcut
      rw [hstrip, List.append_assoc, List.cons_append] at ht
      rw [hcut] at hc
      obtain ⟨q, -, rfl⟩ := Option.map_eq_some_iff.mp hc
      have hname : cstr name = city := (LogOp.put.inj hput).1
      have hname0 : (0 : UInt8) ∉ name := fun hmem => h0 (by rw [← ht]; simp [hmem])
      rw [cstr_eq_self hname0] at hname
      subst hname
      exact entryName_eq_some_iff.mpr ⟨⟨hcomma, hcr, hlf⟩, _, ht.symm⟩

/-- The reloader reads the line of an entry as its change. -/
lemma FileEntry.Valid.readChange_line {e : FileEntry} (h : e.Valid P)
    (hstod : ∀ price, P price → StodReadsBack stod price) : readChange stod e.line = e.change := by
  have hcr := h.cr_notMem
  cases e with
  | added city price =>
    obtain ⟨hcity, hprice⟩ := h
    exact readChange_priceLine hcity.comma_notMem hcity.cr_notMem hcity.head_ne_hash
      hcity.head_ne_dash (hstod price hprice)
  | removed city =>
    have hhash : dash ≠ hash := by decide
    simp only [FileEntry.line, removeLine] at hcr ⊢
    simp [readChange, FileEntry.change, stripCr_of_notMem hcr, hhash]
  | remainder text =>
    have hcomma : comma ∉ text := fun hmem => (digit_or_point_ne (h _ hmem)).2.1 rfl
    have hdash : text.head? ≠ some dash := fun hhead =>
      (digit_or_point_ne (h _ (List.mem_of_head? hhead))).2.2.2.2.2 rfl
    simp only [FileEntry.line] at hcr ⊢
    simp [readChange, FileEntry.change, stripCr_of_notMem hcr, hdash,
      cutAt_eq_none_iff.mpr hcomma]

/-- The changes of the file are those of the initial lines, and then those of the entries. -/
lemma readChanges_fileOf {lines : List Bytes} {entries : List FileEntry}
    (hlines : ∀ line ∈ lines, InitialLine line) (hentries : ∀ e ∈ entries, e.Valid P)
    (hstod : ∀ price, P price → StodReadsBack stod price) :
    readChanges stod (fileOf lines entries) =
      lines.filterMap (readChange stod) ++ entries.filterMap FileEntry.change := by
  unfold readChanges
  rw [getlines_fileOf hlines hentries, List.filterMap_append, List.filterMap_map]
  congr 1
  exact List.filterMap_congr fun e he => (hentries e he).readChange_line hstod

end Changes

end ParkingSystem
