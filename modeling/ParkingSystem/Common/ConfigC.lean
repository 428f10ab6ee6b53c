import ParkingSystem.Common.Config
import ParkingSystem.Foundation.Scan

/-!
# The configuration file in C

`common/config.c` reads the same `KEY=VALUE` files as the class `Config`, for the components that
are written in C.  It reads with `fgets` into a buffer of 256 bytes and keeps the first 128
assignments in a table; `config_get` answers with the first entry of the table for a key.

Of a file of plain lines both read the same assignments.  They differ in what they make of them: one
answers with the first of the first 128 assignments to a key, the other with the last of all, and
`config_get_int` takes a value that is no number for zero where `getInt` takes the default.
-/

namespace ParkingSystem

open Foundation

/-- `Config::getInt`. -/
def Config.getInt (cfg : Config) (key : Bytes) (default : ℤ) : ℤ :=
  match cfg.map key with
  | none => default
  | some val => (stoi val).getD default

namespace ConfigC

/-! ## The code -/

/-- `MAX_ENTRIES`. -/
abbrev maxEntries : ℕ := 128

/-- `MAX_LINE`. -/
abbrev maxLine : ℕ := 256

/-- `trim`. -/
def trim (s : Bytes) : Bytes := (s.dropWhile isspace).rdropWhile isspace

/-- One turn of the reading loop: the entry that a string makes, if it makes one. -/
def readLine (line : Bytes) : Option (Bytes × Bytes) :=
  let line := trim ((cstr line).takeWhile fun b => b ≠ cr ∧ b ≠ lf)
  if line = [] ∨ line.head? = some hash then none
  else match cutAt equals line with
    | none => none
    | some (k, v) => some ((snprintf maxLine (trim k)).1, (snprintf maxLine (trim v)).1)

/-- The reading loop, which ends when the table is full. -/
def loadLines : List (Bytes × Bytes) → List Bytes → List (Bytes × Bytes)
  | entries, [] => entries
  | entries, line :: lines =>
    if entries.length < maxEntries then loadLines (entries ++ (readLine line).toList) lines
    else entries

/-- `config_load`: the result and the table, where `none` is a file that cannot be opened. -/
def load (entries : List (Bytes × Bytes)) (file : Option Bytes) : ℤ × List (Bytes × Bytes) :=
  match file with
  | none => (-1, entries)
  | some text => (0, loadLines [] (fgetsAll maxLine text))

/-- `config_get`, where `none` is a null pointer. -/
def get (entries : List (Bytes × Bytes)) (key : Bytes) (default : Option Bytes) : Option Bytes :=
  match entries.find? fun e => e.1 = key with
  | some e => some e.2
  | none => default

/-- `config_get_int`. -/
def getInt (entries : List (Bytes × Bytes)) (key : Bytes) (default : ℤ) : ℤ :=
  match get entries key none with
  | some v => atoi v
  | none => default

/-! ## Plain lines -/

/-- A line that fits the buffer, with no carriage return but at its end, and without the bytes that
end a string in C or that only C takes for white space: NUL, vertical tab and form feed. -/
structure PlainLine (line : Bytes) : Prop where
  length_le : line.length + 2 ≤ maxLine
  plain : ∀ b ∈ stripCr line, b ≠ 0 ∧ b ≠ cr ∧ b ≠ 11 ∧ b ≠ 12

/-- The value of the first assignment to a key. -/
def firstAssigned (key : Bytes) (l : List (Bytes × Bytes)) : Option Bytes :=
  (l.find? fun p => p.1 = key).map Prod.snd

section Agreement

variable {line file : Bytes}

/-- Trimming is stripping of white space. -/
lemma trim_eq_strip (s : Bytes) : trim s = strip isspace s := rfl

/-- Stripping makes nothing longer. -/
lemma length_strip_le (p : UInt8 → Bool) (s : Bytes) : (strip p s).length ≤ s.length :=
  (List.rdropWhile_prefix p _).length_le.trans (List.dropWhile_suffix p).length_le

/-- The text of a plain line is cut off at its end. -/
lemma PlainLine.text_eq (h : PlainLine line) (hlf : lf ∉ line) {tail : Bytes}
    (htail : tail = [] ∨ tail = [lf]) :
    (cstr (line ++ tail)).takeWhile (fun b => b ≠ cr ∧ b ≠ lf) = stripCr line := by
  have hends : ∀ t : Bytes, (∀ b ∈ t, b = cr ∨ b = lf) →
      (cstr (stripCr line ++ t)).takeWhile (fun b => b ≠ cr ∧ b ≠ lf) = stripCr line := by
    intro t ht
    have hzero : (0 : UInt8) ∉ stripCr line ++ t := by
      refine List.not_mem_append (fun hmem => (h.plain 0 hmem).1 rfl) fun hmem => ?_
      rcases ht 0 hmem with h0 | h0 <;> exact absurd h0 (by decide)
    have htext : ∀ b ∈ stripCr line, decide (b ≠ cr ∧ b ≠ lf) = true := by
      intro b hb
      have hne : b ≠ lf := ne_of_mem_of_not_mem ((stripCr_isPrefix line).mem hb) hlf
      simpa using ⟨(h.plain b hb).2.1, hne⟩
    rw [cstr_eq_self hzero, List.takeWhile_append_of_pos htext]
    rcases t with _ | ⟨b, t⟩
    · simp
    · rw [List.takeWhile_cons_of_neg, List.append_nil]
      rcases ht b List.mem_cons_self with rfl | rfl <;> decide
  have htail' : ∀ b ∈ tail, b = cr ∨ b = lf := by
    rcases htail with rfl | rfl <;> simp
  rcases stripCr_cases line with heq | heq
  · conv_lhs => rw [heq]
    exact hends tail htail'
  · conv_lhs => rw [heq, List.append_assoc]
    apply hends
    simpa using htail'

/-- In the text of a plain line, C and C++ take the same bytes for white space. -/
lemma PlainLine.strip_eq (h : PlainLine line) {s : Bytes}
    (hs : ∀ b ∈ s, b ∈ stripCr line) : strip Config.isSpace s = strip isspace s := by
  apply strip_congr
  intro b hb
  obtain ⟨-, -, hvt, hff⟩ := h.plain b (hs b hb)
  rw [Bool.eq_iff_iff]
  simp only [Config.isSpace, Config.ws, cr, lf, isspace, List.mem_cons, List.not_mem_nil, or_false,
    decide_eq_true_eq, Bool.or_eq_true, Bool.and_eq_true, UInt8.le_iff_toNat_le,
    UInt8.reduceToNat, ← UInt8.toNat_inj, ne_eq] at hvt hff ⊢
  omega

/-- **A plain line assigns the same in C as in C++.** -/
lemma PlainLine.readLine_eq (h : PlainLine line) (hlf : lf ∉ line) {tail : Bytes}
    (htail : tail = [] ∨ tail = [lf]) : readLine (line ++ tail) = Config.assignment line := by
  have hline : strip Config.isSpace line = strip isspace (stripCr line) := by
    have hblank : Config.Blank [cr] := by decide
    rw [← h.strip_eq fun b hb => hb]
    rcases stripCr_cases line with heq | heq
    · rw [← heq]
    · conv_lhs => rw [heq]
      exact strip_append_right hblank _
  have hfits : ∀ s : Bytes, s.length ≤ (stripCr line).length →
      (snprintf maxLine (trim s)).1 = trim s := by
    intro s hs
    have hle : (trim s).length ≤ s.length := length_strip_le isspace s
    have hline := (stripCr_isPrefix line).length_le
    have hmax := h.length_le
    rw [snprintf_of_lt (by omega)]
  unfold readLine Config.assignment
  simp only [h.text_eq hlf htail, hline, trim_eq_strip]
  split_ifs with hskip
  · rfl
  · rcases hcut : cutAt equals (strip isspace (stripCr line)) with _ | ⟨k, v⟩
    · rfl
    · -- key and value are parts of the text
      obtain ⟨heq, -⟩ := cutAt_eq_some_iff.mp hcut
      have hmem : ∀ b, b ∈ k ∨ b ∈ v → b ∈ stripCr line := by
        intro b hb
        apply mem_of_mem_strip (p := isspace)
        rw [heq]
        rcases hb with hb | hb
        · exact List.mem_append_left _ hb
        · exact List.mem_append_right _ (List.mem_cons_of_mem _ hb)
      have hparts : k.length ≤ (stripCr line).length ∧ v.length ≤ (stripCr line).length := by
        have hle := length_strip_le isspace (stripCr line)
        have := congrArg List.length heq
        simp only [List.length_append, List.length_cons] at this
        omega
      simp only [Option.map_some, h.strip_eq fun b hb => hmem b (.inl hb),
        h.strip_eq fun b hb => hmem b (.inr hb), ← trim_eq_strip, hfits k hparts.1,
        hfits v hparts.2]

/-- The loop keeps the first assignments, as many as there is room for. -/
lemma loadLines_eq (entries : List (Bytes × Bytes)) (lines : List Bytes) :
    loadLines entries lines =
      entries ++ (lines.filterMap readLine).take (maxEntries - entries.length) := by
  induction lines generalizing entries with
  | nil => simp [loadLines]
  | cons line lines ih =>
    rw [loadLines]
    split_ifs with hroom
    · rw [ih]
      rcases hline : readLine line with _ | e
      · simp [hline]
      · have hleft : maxEntries - entries.length = maxEntries - (entries.length + 1) + 1 := by
          omega
        simp [hline, hleft]
    · rw [Nat.sub_eq_zero_of_le (not_lt.mp hroom), List.take_zero, List.append_nil]

/-- The table holds the first assignments of a file of plain lines. -/
lemma load_eq (entries : List (Bytes × Bytes)) (h : ∀ line ∈ getlines file, PlainLine line) :
    (load entries (some file)).2 = (Config.assignments file).take maxEntries := by
  have hline : ∀ line ∈ getlines file, lf ∉ line → ∀ tail, tail = [] ∨ tail = [lf] →
      readLine (line ++ tail) = Config.assignment line :=
    fun line hline hlf tail htail => (h line hline).readLine_eq hlf htail
  have hread : (fgetsAll maxLine file).filterMap readLine = Config.assignments file := by
    rw [fgetsAll_of_short fun line hl => (h line hl).length_le, Config.assignments, getlines,
      List.filterMap_append, List.filterMap_append, List.filterMap_map]
    congr 1
    · apply List.filterMap_congr
      intro line hl
      exact hline line (List.mem_append_left _ hl) (notMem_of_mem_cutLines hl) [lf] (.inr rfl)
    · split_ifs with hrest
      · rfl
      · have hlast := hline (cutLines file).2 (List.mem_append_right _ (by simp [hrest]))
          (notMem_cutLines_rest file) [] (.inl rfl)
        rw [List.append_nil] at hlast
        simp [List.filterMap_cons, hlast]
  change loadLines [] (fgetsAll maxLine file) = _
  rw [loadLines_eq, hread]
  simp

/-- `config_get` answers with the first entry. -/
lemma get_eq (entries : List (Bytes × Bytes)) (key : Bytes) (default : Option Bytes) :
    get entries key default = (firstAssigned key entries).or default := by
  unfold get firstAssigned
  generalize entries.find? _ = found
  rcases found with _ | e <;> rfl

/-- `config_get_int` reads the first entry with `atoi`. -/
lemma getInt_eq (entries : List (Bytes × Bytes)) (key : Bytes) (default : ℤ) :
    getInt entries key default = ((firstAssigned key entries).map atoi).getD default := by
  rw [getInt, get_eq, Option.or_none]
  rcases firstAssigned key entries with _ | v <;> rfl

/-- `getInt` reads the last assignment with `std::stoi`. -/
lemma config_getInt_eq (file key : Bytes) (default : ℤ) :
    (Config.load (some file)).getInt key default =
      ((Config.lastAssigned key (Config.assignments file)).map fun v =>
        (stoi v).getD default).getD default := by
  rw [Config.getInt, Config.map_load, replay_apply, Config.lastWrite_put]
  rcases Config.lastAssigned key (Config.assignments file) with _ | v <;> rfl

/-- Texts that may be missing are the same if no default tells them apart. -/
lemma or_eq_getD_iff {x y : Option Bytes} :
    (∀ default, x.or (some default) = some (y.getD default)) ↔ x = y := by
  constructor
  · intro hsame
    -- a default that is neither of the two
    have hdefault := hsame (0 :: (x.getD [] ++ y.getD []))
    rcases x with _ | v <;> rcases y with _ | w
    · rfl
    · have := congrArg List.length (Option.some.inj hdefault)
      simp at this
    · have := congrArg List.length (Option.some.inj hdefault)
      simp at this
    · simpa using hdefault
  · rintro rfl default
    rcases x with _ | v <;> rfl

/-- A value is the same number for `atoi` as for `std::stoi`, whatever the default, if `std::stoi`
accepts it. -/
lemma atoi_eq_stoi_iff {value : Option Bytes} :
    (∀ default, (value.map atoi).getD default =
        (value.map fun v => (stoi v).getD default).getD default) ↔
      ∀ v ∈ value, (stoi v).isSome := by
  rcases value with _ | v
  · simp
  · simp only [Option.map_some, Option.getD_some, Option.mem_some_iff, forall_eq']
    constructor
    · intro hsame
      by_contra hnone
      have hdefault := hsame (atoi v + 1)
      rw [Option.not_isSome_iff_eq_none.mp hnone, Option.getD_none] at hdefault
      omega
    · intro hsome default
      obtain ⟨n, hn⟩ := Option.isSome_iff_exists.mp hsome
      rw [hn, Option.getD_some, atoi_of_stoi hn]

/-- **When C and C++ agree on the configuration.**  On a file of plain lines the two give the same
answers for a key, whatever the default, exactly when the first of the first 128 assignments to it
has the value of the last one, or there is none.  Then they agree on the key as a number, whatever
the default, exactly when the value is one that `std::stoi` accepts, or there is none. -/
theorem config_agree (h : ∀ line ∈ getlines file, PlainLine line)
    (entries : List (Bytes × Bytes)) (key : Bytes) :
    let cfg := Config.load (some file)
    let table := (load entries (some file)).2
    let value := Config.lastAssigned key (Config.assignments file)
    ((∀ default, get table key (some default) = some (cfg.get key default)) ↔
        firstAssigned key ((Config.assignments file).take maxEntries) = value) ∧
      (firstAssigned key ((Config.assignments file).take maxEntries) = value →
        ((∀ default, getInt table key default = cfg.getInt key default) ↔
          ∀ v ∈ value, (stoi v).isSome)) := by
  simp only [load_eq entries h, get_eq, Config.get_load, getInt_eq, config_getInt_eq]
  refine ⟨or_eq_getD_iff, fun heq => ?_⟩
  rw [heq]
  exact atoi_eq_stoi_iff

/-- A port that is assigned once, and white space and a comment. -/
theorem config_agree_port :
    getInt (load [] (some (ascii "# server\n PORT = 8080\r\n"))).2 (ascii "PORT") 0 =
      (Config.load (some (ascii "# server\n PORT = 8080\r\n"))).getInt (ascii "PORT") 0 := by
  have hplain : ∀ line ∈ getlines (ascii "# server\n PORT = 8080\r\n"),
      line.length + 2 ≤ maxLine ∧ ∀ b ∈ stripCr line, b ≠ 0 ∧ b ≠ cr ∧ b ≠ 11 ∧ b ≠ 12 := by
    decide +kernel
  have hagree := config_agree (fun line hline => ⟨(hplain line hline).1, (hplain line hline).2⟩) []
    (ascii "PORT")
  exact (hagree.2 (by decide +kernel)).mpr (by decide +kernel) 0

end Agreement

end ConfigC

end ParkingSystem
