import ParkingSystem.Db.LastCommand

/-!
# The prices that the server bills with

Two loaders rebuild the pricing table from the prices file: `PriceReloader::reload` after a command,
and `PriceTable::loadFromFile` when the server starts.  A `Loader` is what they have in common: it
reads each line of the file on its own, takes the entries that `add` wrote for rows of their
cities, and passes over the markers that `remove` wrote.

A marker does not take away a row that stands in front of it.  So the table follows the last
command on a city when this is an `add` that nothing in the initial file hides, but after a
`remove` only if the file has no entry of the city at all (`billed_price_iff`).
-/

namespace ParkingSystem

open Foundation

/-! ## Loaders -/

/-- The row that a loader makes of an entry, if `price` is the price that it reads back. -/
def FileEntry.row (price : Bytes → ℚ → ℚ) : FileEntry → Option (Bytes × ℚ)
  | added city p => some (city, price city p)
  | removed _ => none
  | remainder _ => none

/-- A loader of the pricing table, for entries whose prices have the property `P`. -/
structure Loader (P : ℚ → Prop) where
  /-- The row that the loader reads from a line. -/
  read : Bytes → Option (Bytes × ℚ)
  /-- The price that the loader reads back from the entry of a city. -/
  price : Bytes → ℚ → ℚ
  /-- The loader reads entries and passes over markers. -/
  read_line : ∀ e : FileEntry, e.Valid P → read e.line = e.row price

/-- The price that a lookup returns when the table follows a command. -/
def Command.billed : Command → ℚ
  | add _ price => roundTo 6 price
  | remove _ => -1

namespace Loader

variable {P : ℚ → Prop} (L : Loader P)

/-- The price of the first row of a city that comes from an initial line. -/
def initialPrice (lines : List Bytes) (cmds : List Command) (city : Bytes) : Option ℚ :=
  firstPrice city ((survivorsOf cmds lines).filterMap L.read)

/-- Whether the table follows the last command on a city: the row of an `add` is not hidden by an
initial line and its price is read back; before a `remove` there was neither an initial line nor
an `add`.  In both cases an initial line with the very price does no harm. -/
def Follows (lines : List Bytes) (cmds : List Command) : Command → Prop
  | .add city price =>
    L.initialPrice lines cmds city = some (roundTo 6 price) ∨
      L.initialPrice lines cmds city = none ∧ L.price city price = roundTo 6 price
  | .remove city =>
    L.initialPrice lines cmds city = some (-1) ∨
      L.initialPrice lines cmds city = none ∧ ∀ price, .add city price ∉ cmds

end Loader

/-! ## The rows of the entries -/

/-- The price that a command adds for a city. -/
def Command.addedPrice (city : Bytes) : Command → Option ℚ
  | add city' price => if city' = city then some price else none
  | remove _ => none

/-- The price of the last `add` of a city. -/
def lastAdd (city : Bytes) (cmds : List Command) : Option ℚ :=
  (cmds.filterMap (Command.addedPrice city)).getLast?

@[simp] lemma lastAdd_concat (city : Bytes) (cmds : List Command) (cmd : Command) :
    lastAdd city (cmds ++ [cmd]) = (cmd.addedPrice city).or (lastAdd city cmds) := by
  cases h : cmd.addedPrice city <;> simp [lastAdd, List.filterMap_append, h]

/-- Replacing the entry of a city drops its row. -/
lemma filterMap_row_replaced (price : Bytes → ℚ → ℚ) (city : Bytes) (entries : List FileEntry) :
    (entries.flatMap (FileEntry.replaced city)).filterMap (FileEntry.row price) =
      (entries.filterMap (FileEntry.row price)).filter fun r => r.1 ≠ city := by
  induction entries with
  | nil => rfl
  | cons e entries ih =>
    rw [List.flatMap_cons, List.filterMap_append, ih]
    cases e with
    | added c p =>
      by_cases hc : c = city
      · simp only [FileEntry.replaced, hc, if_true]
        split_ifs <;> simp [FileEntry.row]
      · simp [FileEntry.replaced, FileEntry.row, hc]
    | removed c => simp [FileEntry.replaced, FileEntry.row, List.filterMap_cons]
    | remainder text => simp [FileEntry.replaced, FileEntry.row, List.filterMap_cons]

section Rows

variable {P : ℚ → Prop} {cmds : List Command} {lines : List Bytes} {city : Bytes}
  {price : Bytes → ℚ → ℚ}

/-- The rows of the entries are rows of cities that commands named. -/
lemma exists_of_mem_row {r : Bytes × ℚ}
    (hr : r ∈ (entriesAfter cmds).filterMap (FileEntry.row price)) :
    ∃ cmd ∈ cmds, cmd.city = r.1 := by
  induction cmds using List.reverseRecOn with
  | nil => simp [entriesAfter] at hr
  | append_singleton cmds cmd ih =>
    rw [entriesAfter_concat] at hr
    cases cmd with
    | add c p =>
      rw [Command.entries, List.filterMap_append, filterMap_row_replaced] at hr
      rcases List.mem_append.mp hr with hr | hr
      · obtain ⟨cmd, hcmd, hname⟩ := ih (List.mem_of_mem_filter hr)
        exact ⟨cmd, List.mem_append_left _ hcmd, hname⟩
      · refine ⟨.add c p, by simp, ?_⟩
        simp only [FileEntry.row, List.filterMap_cons, List.filterMap_nil,
          List.mem_singleton] at hr
        rw [hr]
        rfl
    | remove c =>
      rw [Command.entries, List.filterMap_append] at hr
      obtain ⟨cmd, hcmd, hname⟩ := ih (by simpa [FileEntry.row, List.filterMap_cons] using hr)
      exact ⟨cmd, List.mem_append_left _ hcmd, hname⟩

/-- A proper name that is short enough is its own row name. -/
lemma rowName_eq_self (h : CityName city) (hlen : city.length < cityNameLen) :
    rowName city = city := by
  unfold rowName
  rw [cstr_eq_self h.zero_notMem, List.take_of_length_le (by omega)]

/-- **The first row of a city among the entries** has the price of the last `add`. -/
lemma firstPrice_entriesAfter
    (hcmds : ∀ cmd ∈ cmds, cmd.Valid P ∧ cmd.city.length < cityNameLen) :
    firstPrice city ((entriesAfter cmds).filterMap (FileEntry.row price)) =
      (lastAdd city cmds).map (price city) := by
  induction cmds using List.reverseRecOn with
  | nil => rfl
  | append_singleton cmds cmd ih =>
    have hprev : ∀ c ∈ cmds, c.Valid P ∧ c.city.length < cityNameLen := by
      intro c hc
      exact hcmds c (List.mem_append_left _ hc)
    obtain ⟨⟨hname, -⟩, hlen⟩ := hcmds cmd (by simp)
    have ih := ih hprev
    rw [entriesAfter_concat, lastAdd_concat]
    cases cmd with
    | remove c =>
      unfold Command.entries
      rw [List.filterMap_append, firstPrice_append, ih]
      simp [FileEntry.row, Command.addedPrice, List.filterMap_cons]
    | add c p =>
      change CityName c at hname
      change c.length < cityNameLen at hlen
      -- the rows that the new command leaves have other names, which are their own row names
      have hother : firstPrice city (((entriesAfter cmds).filterMap (FileEntry.row price)).filter
          fun r => r.1 ≠ c) = if c = city then none else (lastAdd city cmds).map (price city) := by
        have hrow : ∀ r ∈ (entriesAfter cmds).filterMap (FileEntry.row price),
            rowName r.1 = r.1 := by
          intro r hr
          obtain ⟨cmd, hcmd, hcity⟩ := exists_of_mem_row hr
          rw [← hcity]
          exact rowName_eq_self (hprev cmd hcmd).1.1 (hprev cmd hcmd).2
        unfold firstPrice
        rw [List.find?_filter]
        split_ifs with hc
        · rw [Option.map_eq_none_iff, List.find?_eq_none]
          intro r hr
          simp [hrow r hr, hc]
        · rw [← ih, firstPrice, List.find?_congr]
          intro r hr
          simp only [hrow r hr]
          by_cases hr' : r.1 = city <;> simp [hr', Ne.symm hc]
      have hnew : firstPrice city [(c, price c p)] =
          if c = city then some (price c p) else none := by
        unfold firstPrice
        rw [List.find?_singleton]
        simp only [rowName_eq_self hname hlen, decide_eq_true_eq]
        split_ifs <;> rfl
      unfold Command.entries
      rw [List.filterMap_append, filterMap_row_replaced, firstPrice_append, hother]
      simp only [FileEntry.row, List.filterMap_cons, List.filterMap_nil, hnew, Command.addedPrice]
      by_cases hc : c = city
      · simp [hc]
      · simp [hc]

/-- A city that no `add` named has no last `add`. -/
lemma lastAdd_eq_none_iff : lastAdd city cmds = none ↔ ∀ p, .add city p ∉ cmds := by
  unfold lastAdd
  rw [List.getLast?_eq_none_iff, List.filterMap_eq_nil_iff]
  constructor
  · intro h p hmem
    simpa [Command.addedPrice] using h _ hmem
  · intro h cmd hcmd
    cases cmd with
    | remove c => rfl
    | add c p =>
      have hc : c ≠ city := by
        rintro rfl
        exact h p hcmd
      simp [Command.addedPrice, hc]

/-- If the last command on a city is an `add`, it is the last `add`. -/
lemma lastAdd_of_lastCommand {c : Bytes} {p : ℚ} (h : lastCommand city cmds = some (.add c p)) :
    lastAdd city cmds = some p := by
  induction cmds using List.reverseRecOn with
  | nil => simp [lastCommand] at h
  | append_singleton cmds cmd ih =>
    rw [lastAdd_concat]
    by_cases hcity : cmd.city = city
    · have hcmd : cmd = .add c p := by simpa [lastCommand, List.filter_append, hcity] using h
      subst hcmd
      change c = city at hcity
      simp [Command.addedPrice, hcity]
    · have hnone : cmd.addedPrice city = none := by
        cases cmd with
        | add c' p' =>
          change c' ≠ city at hcity
          simp [Command.addedPrice, hcity]
        | remove c' => rfl
      rw [hnone, Option.none_or]
      exact ih (by simpa [lastCommand, List.filter_append, hcity] using h)

/-- The last command on a city is one of the commands, and names the city. -/
lemma mem_of_lastCommand {cmd : Command} (h : lastCommand city cmds = some cmd) :
    cmd ∈ cmds ∧ cmd.city = city := by
  simpa using List.mem_of_getLast? h

end Rows

/-! ## The table and the last command -/

namespace Loader

variable {P : ℚ → Prop} (L : Loader P) {cmds : List Command} {lines : List Bytes} {city : Bytes}

/-- The city lines of a prices file, as the loader reads them. -/
def cityLines (file : Bytes) : List (Bytes × ℚ) := (getlines file).filterMap L.read

/-- The city lines after commands. -/
lemma cityLines_runCommands (hlines : ∀ line ∈ lines, InitialLine line)
    (hcmds : ∀ cmd ∈ cmds, cmd.Valid P) :
    L.cityLines (runCommands cmds (unlines lines)) =
      (survivorsOf cmds lines).filterMap L.read ++
        (entriesAfter cmds).filterMap (FileEntry.row L.price) := by
  have hentries := entriesAfter_valid hcmds
  have hsurvivors : ∀ line ∈ survivorsOf cmds lines, InitialLine line := by
    intro line hline
    exact hlines line (mem_of_mem_survivorsOf hline)
  have hread : ((entriesAfter cmds).map FileEntry.line).filterMap L.read =
      (entriesAfter cmds).filterMap (FileEntry.row L.price) := by
    rw [List.filterMap_map]
    exact List.filterMap_congr fun e he => L.read_line e (hentries e he)
  unfold cityLines
  rw [runCommands_unlines hlines hcmds, getlines_fileOf hsurvivors hentries,
    List.filterMap_append, hread]

/-- The first row of a city comes from an initial line, or else from the last `add`. -/
lemma firstPrice_cityLines (hlines : ∀ line ∈ lines, InitialLine line)
    (hcmds : ∀ cmd ∈ cmds, cmd.Valid P ∧ cmd.city.length < cityNameLen) :
    firstPrice city (L.cityLines (runCommands cmds (unlines lines))) =
      (L.initialPrice lines cmds city).or ((lastAdd city cmds).map (L.price city)) := by
  rw [L.cityLines_runCommands hlines fun cmd hcmd => (hcmds cmd hcmd).1, firstPrice_append,
    firstPrice_entriesAfter hcmds]
  rfl

/-- **A table follows the last command** exactly under the condition `Follows`. -/
theorem billed_iff (hlines : ∀ line ∈ lines, InitialLine line)
    (hcmds : ∀ cmd ∈ cmds, cmd.Valid P ∧ cmd.city.length < cityNameLen)
    (hprice : ∀ p, P p → 0 ≤ L.price city p) {cmd : Command}
    (hlast : lastCommand city cmds = some cmd) :
    (firstPrice city (L.cityLines (runCommands cmds (unlines lines)))).getD (-1) = cmd.billed ↔
      L.Follows lines cmds cmd := by
  obtain ⟨hmem, hcity⟩ := mem_of_lastCommand hlast
  rw [L.firstPrice_cityLines hlines hcmds]
  cases cmd with
  | add c p =>
    change c = city at hcity
    subst hcity
    rw [lastAdd_of_lastCommand hlast, Follows]
    cases L.initialPrice lines cmds c <;> simp [Command.billed]
  | remove c =>
    change c = city at hcity
    subst hcity
    rw [Follows, ← lastAdd_eq_none_iff]
    cases L.initialPrice lines cmds c with
    | some q => simp [Command.billed]
    | none =>
      cases hadd : lastAdd c cmds with
      | none => simp [Command.billed]
      | some p =>
        have hpos : 0 ≤ L.price c p := by
          obtain ⟨cmd, hcmd, hp⟩ := List.mem_filterMap.mp (List.mem_of_getLast? hadd)
          cases cmd with
          | remove c' => simp [Command.addedPrice] at hp
          | add c' p' =>
            simp only [Command.addedPrice, Option.ite_none_right_eq_some, Option.some.injEq] at hp
            rw [← hp.2]
            exact hprice p' ((hcmds _ hcmd).1.2 c' p' rfl)
        have hne : L.price c p ≠ -1 := by linarith
        simp [Command.billed, hne]

end Loader

/-! ## The two loaders of the program -/

/-- A price that is not negative, as `stod` and `atof` read it: `stod` reads back what was printed,
and `atof` reads no negative number from what fits a buffer. -/
structure ReadablePrice (stod : Bytes → Option ℚ) (atof : Bytes → ℚ) (price : ℚ) : Prop where
  nonneg : 0 ≤ price
  stod_printFixed : StodReadsBack stod price
  atof_take_nonneg : ∀ k, 0 ≤ atof ((printFixed 6 price).take k)

/-- Rounding keeps a number from becoming negative. -/
lemma roundTo_nonneg {d : ℕ} {q : ℚ} (h : 0 ≤ q) : 0 ≤ roundTo d q := by
  unfold roundTo
  rw [if_neg (not_lt.mpr h), one_mul]
  positivity

/-- With conversions that read plain decimals, every price that is not negative is readable. -/
lemma readablePrice_readDecimal {price : ℚ} (h : 0 ≤ price) :
    ReadablePrice readDecimal (fun s => (readDecimal s).getD 0) price where
  nonneg := h
  stod_printFixed := readDecimal_printFixed 6 price
  atof_take_nonneg k := by
    cases hq : readDecimal ((printFixed 6 price).take k) with
    | none => simp
    | some q => simpa using readDecimal_nonneg (head?_take_printFixed h k) hq

section Loaders

variable (stod : Bytes → Option ℚ) (atof : Bytes → ℚ)

/-- The loader `PriceReloader::reload`. -/
def reloadLoader : Loader (ReadablePrice stod atof) where
  read line := (readChange stod line).bind Change.entry
  price _ p := roundTo 6 p
  read_line e he := by
    rw [he.readChange_line fun p hp => hp.stod_printFixed]
    cases e <;> rfl

/-- What `loadFromFile` takes for the line, if the text of a line has no separators of lines. -/
lemma loadEntry_take {text : Bytes} (h0 : (0 : UInt8) ∉ text) (hcr : cr ∉ text) (hlf : lf ∉ text) :
    loadEntry atof ((text ++ [lf]).take (maxLine - 1)) =
      let line := text.take (maxLine - 1)
      if line.head? = some hash ∨ line = [] then none
      else (cutAt comma line).map fun p => (p.1, atof p.2) := by
  have hzero : (0 : UInt8) ∉ (text ++ [lf]).take (maxLine - 1) := by
    intro hmem
    rcases List.mem_append.mp (List.mem_of_mem_take hmem) with hmem | hmem
    · exact h0 hmem
    · exact absurd hmem (by decide)
  have hline : (cstr ((text ++ [lf]).take (maxLine - 1))).takeWhile (fun b => b ≠ cr ∧ b ≠ lf) =
      text.take (maxLine - 1) := by
    rw [cstr_eq_self hzero, List.take_append, List.takeWhile_append_of_pos]
    · cases maxLine - 1 - text.length <;> simp
    · intro b hb
      have hb := List.mem_of_mem_take hb
      simpa using ⟨ne_of_mem_of_not_mem hb hcr, ne_of_mem_of_not_mem hb hlf⟩
  unfold loadEntry
  rw [hline]

/-- The loader `PriceTable::loadFromFile`: of a line it reads what fits the buffer. -/
def startLoader : Loader (ReadablePrice stod atof) where
  read line := loadEntry atof ((line ++ [lf]).take (maxLine - 1))
  price city p := atof ((printFixed 6 p).take (254 - city.length))
  read_line e he := by
    rw [loadEntry_take atof he.fileLine.zero_notMem he.cr_notMem he.fileLine.lf_notMem]
    cases e with
    | added city p =>
      have hcity : CityName city := he.1
      have hhash : (city ++ comma :: (printFixed 6 p).take (254 - city.length)).head? ≠ some hash :=
        head?_append_comma_ne (by decide) hcity.head_ne_hash
      simp only [FileEntry.line, take_priceLine hcity, hhash, cutAt_append hcity.comma_notMem]
      simp [FileEntry.row]
    | removed city =>
      have hcity : CityName city := he
      have hcomma : comma ∉ (removeLine city).take (maxLine - 1) := by
        intro hmem
        rcases List.mem_cons.mp (List.mem_of_mem_take hmem) with h | h
        · exact absurd h (by decide)
        · exact hcity.comma_notMem h
      simp only [FileEntry.line, cutAt_eq_none_iff.mpr hcomma]
      simp [FileEntry.row]
    | remainder text =>
      have hcomma : comma ∉ text.take (maxLine - 1) := by
        intro hmem
        exact (digit_or_point_ne (he _ (List.mem_of_mem_take hmem))).2.1 rfl
      simp only [FileEntry.line, cutAt_eq_none_iff.mpr hcomma]
      simp [FileEntry.row]

end Loaders

section Tables

variable {stod : Bytes → Option ℚ} {atof : Bytes → ℚ} {lines : List Bytes} {cmds : List Command}

/-- A command leaves an entry or a marker at the end of the file, so that a reload finds some
change. -/
lemma readChanges_runCommands_ne_nil {P : ℚ → Prop} (hlines : ∀ line ∈ lines, InitialLine line)
    (hcmds : ∀ cmd ∈ cmds, cmd.Valid P) (hstod : ∀ p, P p → StodReadsBack stod p)
    (hne : cmds ≠ []) : readChanges stod (runCommands cmds (unlines lines)) ≠ [] := by
  obtain ⟨prev, cmd, rfl⟩ := (List.eq_nil_or_concat cmds).resolve_left hne
  rw [List.concat_eq_append] at hcmds ⊢
  rw [runCommands_unlines hlines hcmds,
    readChanges_fileOf (fun l hl => hlines l (mem_of_mem_survivorsOf hl))
      (entriesAfter_valid hcmds) hstod, entriesAfter_concat]
  cases cmd <;> simp [Command.entries, FileEntry.change]

/-- The rows of a reload are the city lines of the file. -/
lemma filterMap_entry_readChanges (stod : Bytes → Option ℚ) (atof : Bytes → ℚ) (file : Bytes) :
    (readChanges stod file).filterMap Change.entry =
      (reloadLoader stod atof).cityLines file := by
  unfold readChanges
  rw [List.filterMap_filterMap]
  rfl

/-- The strings that `fgets` reads of the file have the rows of its lines: all but the first string
of a line have no comma. -/
lemma filterMap_loadEntry_fgetsAll (stod : Bytes → Option ℚ) {lines : List Bytes}
    (h : ∀ line ∈ lines, FileLine line) :
    (fgetsAll maxLine (unlines lines)).filterMap (loadEntry atof) =
      (startLoader stod atof).cityLines (unlines lines) := by
  rw [Loader.cityLines, getlines_unlines fun line hline => (h line hline).lf_notMem]
  induction lines with
  | nil => rfl
  | cons line lines ih =>
    have hline := h line List.mem_cons_self
    obtain ⟨pieces, hall, -, hcomma⟩ := hline.fgetsAll_pieces (unlines lines)
    have hpieces : pieces.filterMap (loadEntry atof) = [] := by
      rw [List.filterMap_eq_nil_iff]
      intro piece hpiece
      exact loadEntry_eq_none (hcomma piece hpiece).2
    rw [unlines_cons, hall, List.cons_append, List.filterMap_cons, List.filterMap_append, hpieces,
      List.nil_append, ih fun l hl => h l (List.mem_cons_of_mem _ hl)]
    rfl

/-- **The billed price and the last command.**  After a reload, and after a start of the server, a
lookup of the city answers what the last command on it asks for if and only if both loaders follow
the command. -/
theorem billed_price_iff (hlines : ∀ line ∈ lines, InitialLine line)
    (hcmds : ∀ cmd ∈ cmds, cmd.Valid (ReadablePrice stod atof) ∧ cmd.city.length < cityNameLen)
    (hreload : ((reloadLoader stod atof).cityLines (runCommands cmds (unlines lines))).length ≤
      shmMaxCities)
    (hstart : ((startLoader stod atof).cityLines (runCommands cmds (unlines lines))).length ≤
      shmMaxCities)
    {city : Bytes} {cmd : Command} (hlast : lastCommand city cmds = some cmd) (db : Database)
    (shm shm' : PriceArea) :
    (lookup (reload stod (some (runCommands cmds (unlines lines))) db shm).2.2 city = cmd.billed ∧
      lookup (loadFromFile atof shm' (runCommands cmds (unlines lines))).2 city = cmd.billed) ↔
      (reloadLoader stod atof).Follows lines cmds cmd ∧
        (startLoader stod atof).Follows lines cmds cmd := by
  have hvalid : ∀ cmd ∈ cmds, cmd.Valid (ReadablePrice stod atof) := by
    intro cmd hcmd
    exact (hcmds cmd hcmd).1
  have hne : cmds ≠ [] := by
    rintro rfl
    exact absurd hlast (by simp [lastCommand])
  have hfgets : (fgetsAll 256 (runCommands cmds (unlines lines))).filterMap (loadEntry atof) =
      (startLoader stod atof).cityLines (runCommands cmds (unlines lines)) := by
    rw [runCommands_unlines hlines hvalid]
    exact filterMap_loadEntry_fgetsAll stod (fileLine_of_mem_fileOf
      (fun l hl => hlines l (mem_of_mem_survivorsOf hl)) (entriesAfter_valid hvalid))
  have hchanges := readChanges_runCommands_ne_nil hlines hvalid (fun p hp => hp.stod_printFixed) hne
  rw [lookup_reload hchanges (by rw [filterMap_entry_readChanges stod atof]; exact hreload),
    filterMap_entry_readChanges stod atof,
    lookup_loadFromFile (by rw [hfgets]; exact hstart), hfgets,
    (reloadLoader stod atof).billed_iff hlines hcmds (fun p hp => roundTo_nonneg hp.nonneg) hlast,
    (startLoader stod atof).billed_iff hlines hcmds (fun p hp => hp.atof_take_nonneg _) hlast]

/-- The price of a city of the initial file is changed. -/
theorem billed_price_iff_changed :
    let file := runCommands [.add (ascii "Eilat") (11 / 20)] (unlines [ascii "Eilat,0.40"])
    lookup (reload readDecimal (some file) ⟨fun _ => none, []⟩ .zero).2.2 (ascii "Eilat") =
        roundTo 6 (11 / 20) ∧
      lookup (loadFromFile (fun s => (readDecimal s).getD 0) .zero file).2 (ascii "Eilat") =
        roundTo 6 (11 / 20) := by
  have hcmds : ∀ cmd ∈ [Command.add (ascii "Eilat") (11 / 20)],
      cmd.Valid (ReadablePrice readDecimal fun s => (readDecimal s).getD 0) ∧
        cmd.city.length < cityNameLen := by
    intro cmd hcmd
    rw [List.mem_singleton.mp hcmd]
    refine ⟨⟨by decide, ?_⟩, by decide⟩
    intro _ _ h
    obtain ⟨-, rfl⟩ := Command.add.inj h
    exact readablePrice_readDecimal (by norm_num)
  have hlast : lastCommand (ascii "Eilat") [.add (ascii "Eilat") (11 / 20)] =
      some (.add (ascii "Eilat") (11 / 20)) := rfl
  exact (billed_price_iff (by decide) hcmds (by decide +kernel) (by decide +kernel) hlast
    ⟨fun _ => none, []⟩ .zero .zero).mpr ⟨Or.inr (by decide +kernel), Or.inr (by decide +kernel)⟩

/-- A marker does not remove a city of the initial file from the table. -/
theorem not_every_removed_city_unknown :
    ¬ ∀ (stod : Bytes → Option ℚ) (atof : Bytes → ℚ) (lines : List Bytes) (cmds : List Command),
      (∀ line ∈ lines, InitialLine line) →
      (∀ cmd ∈ cmds, cmd.Valid (ReadablePrice stod atof) ∧ cmd.city.length < cityNameLen) →
      ((reloadLoader stod atof).cityLines (runCommands cmds (unlines lines))).length ≤
        shmMaxCities →
      ((startLoader stod atof).cityLines (runCommands cmds (unlines lines))).length ≤
        shmMaxCities →
      ∀ (city : Bytes) (cmd : Command), lastCommand city cmds = some cmd →
      ∀ (db : Database) (shm shm' : PriceArea),
        lookup (reload stod (some (runCommands cmds (unlines lines))) db shm).2.2 city =
            cmd.billed ∧
          lookup (loadFromFile atof shm' (runCommands cmds (unlines lines))).2 city =
            cmd.billed := by
  intro h
  have hcmds : ∀ cmd ∈ [Command.remove (ascii "Eilat")],
      cmd.Valid (ReadablePrice readDecimal fun s => (readDecimal s).getD 0) ∧
        cmd.city.length < cityNameLen := by
    intro cmd hcmd
    rw [List.mem_singleton.mp hcmd]
    exact ⟨⟨by decide, fun _ _ h => by cases h⟩, by decide⟩
  have hbilled := (h readDecimal (fun s => (readDecimal s).getD 0) [ascii "Eilat,0.40"]
    [.remove (ascii "Eilat")] (by decide) hcmds (by decide +kernel) (by decide +kernel)
    (ascii "Eilat") (.remove (ascii "Eilat")) rfl ⟨fun _ => none, []⟩ .zero .zero).1
  exact absurd hbilled (by decide +kernel)

end Tables

end ParkingSystem
