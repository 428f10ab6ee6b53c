import ParkingSystem.Foundation.FileSystem
import ParkingSystem.Db.AddLaws

/-!
# An `add` whose file operations may fail

An `add` that succeeds should leave all other lines of the prices file and the new entry.  `cmd_add`
writes a temporary file and renames it to the prices file, but it only looks at the results of
opening the temporary file and of `rename`, and it copies the file by strings of at most 255 bytes.
So it is atomic if one of these two fails, or nothing goes wrong on the way: every string is read
and written whole but those of the city's own lines, and these strings make up the lines that they
should.  The name of the temporary file is cut off to 255 bytes, and is the name of the prices file
itself when that one has 255 bytes.

The condition is exact as long as the lines of the city go as a whole.  If something of them is left
behind, a failing write may happen to lose just that.
-/

namespace ParkingSystem

open Foundation

/-- What becomes of the file operations of `cmd_add`. -/
structure AddResults where
  /-- `fopen(tmp_path, "w")` succeeds. -/
  tmpOpens : Bool
  /-- `fopen(prices_file, "r")` succeeds, if there is a file. -/
  pricesOpens : Bool
  /-- The number of calls of `fgets` that succeed, if there are so many strings. -/
  reads : ℕ
  /-- Whether the byte with a number, of those printed to the temporary file, is lost: because
  `fputs` or `fprintf` fails, or `fclose`, which writes what is left in the buffer. -/
  loses : ℕ → Bool
  /-- `rename` succeeds. -/
  renames : Bool

/-- `tmp_path`. -/
def tmpPath (path : Bytes) : Bytes := (snprintf maxLine (path ++ ascii ".tmp")).1

/-- The strings that the copy loop reads. -/
def AddResults.piecesRead (r : AddResults) (old : Bytes) : List Bytes :=
  if r.pricesOpens then (fgetsAll maxLine old).take r.reads else []

/-- What is printed to the temporary file. -/
def AddResults.printed (r : AddResults) (city : Bytes) (price : ℚ) (old : Bytes) : Bytes :=
  (r.piecesRead old).flatMap (copyLine city) ++ (priceLine city price ++ [lf])

/-- What is in the temporary file when it is closed. -/
def AddResults.tmpContent (r : AddResults) (city : Bytes) (price : ℚ) (old : Bytes) : Bytes :=
  keptBytes r.loses (r.printed city price old)

/-- `cmd_add` on the prices file at a path. -/
def cmdAddUnder (r : AddResults) (path city : Bytes) (price : ℚ) (fs : FileSystem Bytes) :
    ℤ × FileSystem Bytes :=
  if r.tmpOpens then
    let (tmp, fs) := fs.openWrite (tmpPath path)
    -- opening the temporary file may have emptied the prices file
    let old := (fs.get path).getD []
    let fs := fs.writeAt tmp 0 (r.tmpContent city price old)
    if r.renames then
      match fs.rename (tmpPath path) path with
      | none => (-1, fs)
      | some fs => (0, fs)
    else (-1, fs)
  else (-1, fs)

/-- The complete new content of the prices file: all other lines of the old one, each ended by a
newline, and the new entry. -/
def newContent (city : Bytes) (price : ℚ) (old : Bytes) : Bytes :=
  unlines (setEntry city price (getlines old))

/-- `add` is atomic: it succeeds and the prices file has the complete new content, or it fails and
the prices file is as before; and the temporary file is another file. -/
def AddAtomic (r : AddResults) (path city : Bytes) (price : ℚ) (fs : FileSystem Bytes) : Prop :=
  let after := cmdAddUnder r path city price fs
  tmpPath path ≠ path ∧
    (after.1 = 0 ∧ after.2.get path = some (newContent city price ((fs.get path).getD [])) ∨
      after.1 = -1 ∧ after.2.get path = fs.get path)

instance (r : AddResults) (path city : Bytes) (price : ℚ) (fs : FileSystem Bytes) :
    Decidable (AddAtomic r path city price fs) :=
  inferInstanceAs (Decidable (_ ∧ (_ ∧ _ ∨ _ ∧ _)))

/-! ## When nothing goes wrong -/

/-- A string for which the copy loop writes nothing: an entry of the city, or one that begins with
a NUL. -/
def Skipped (city piece : Bytes) : Prop := entryName (cstr piece) = some city ∨ cstr piece = []

instance (city piece : Bytes) : Decidable (Skipped city piece) :=
  inferInstanceAs (Decidable (_ ∨ _))

/-- The lines of the city go as a whole: so does every string that `fgets` reads of them. -/
def OwnLinesGo (city old : Bytes) : Prop :=
  ∀ text ∈ lineTexts old, nameOf text = some city →
    ∀ piece ∈ fgetsAll maxLine text, Skipped city piece

instance (city old : Bytes) : Decidable (OwnLinesGo city old) :=
  inferInstanceAs (Decidable (∀ text ∈ lineTexts old, _ → _))

/-- The other lines stay: they end with a newline, hold no NUL, and none of the strings that `fgets`
reads of them is taken for an entry of the city. -/
def OtherLinesStay (city old : Bytes) : Prop :=
  ∀ text ∈ lineTexts old, nameOf text ≠ some city →
    text.getLast? = some lf ∧ (0 : UInt8) ∉ text ∧
      ∀ piece ∈ fgetsAll maxLine text, entryName piece ≠ some city

instance (city old : Bytes) : Decidable (OtherLinesStay city old) :=
  inferInstanceAs (Decidable (∀ text ∈ lineTexts old, _ → _ ∧ _ ∧ _))

/-- The strings that are not read. -/
def AddResults.piecesLeft (r : AddResults) (old : Bytes) : List Bytes :=
  if r.pricesOpens then (fgetsAll maxLine old).drop r.reads else fgetsAll maxLine old

/-- The copy is complete: the lines of the file are copied as they should, and nothing is lost on
the way to the temporary file. -/
structure CopyComplete (r : AddResults) (city : Bytes) (price : ℚ) (old : Bytes) : Prop where
  own : OwnLinesGo city old
  other : OtherLinesStay city old
  left : ∀ piece ∈ r.piecesLeft old, Skipped city piece
  written : ∀ n < (r.printed city price old).length, r.loses n = false

/-- The name of the prices file does not have 255 bytes; and the temporary file cannot be opened, or
`rename` fails, or the copy is complete. -/
def AddSafe (r : AddResults) (path city : Bytes) (price : ℚ) (fs : FileSystem Bytes) : Prop :=
  path.length ≠ 255 ∧ (r.tmpOpens = false ∨ r.renames = false ∨
    CopyComplete r city price ((fs.get path).getD []))

section Atomic

variable {r : AddResults} {path city old : Bytes} {price : ℚ} {fs : FileSystem Bytes}

/-- The temporary file has another name, unless the name of the prices file has 255 bytes. -/
lemma tmpPath_eq_iff : tmpPath path = path ↔ path.length = 255 := by
  change (path ++ ascii ".tmp").take 255 = path ↔ _
  constructor
  · intro h
    have hlen := congrArg List.length h
    have hsuffix : (ascii ".tmp").length = 4 := by decide
    rw [List.length_take, List.length_append, hsuffix] at hlen
    omega
  · intro h
    rw [← h, List.take_left]

/-- The strings of the prices file are read or left. -/
lemma AddResults.piecesRead_append (r : AddResults) (old : Bytes) :
    r.piecesRead old ++ r.piecesLeft old = fgetsAll maxLine old := by
  unfold AddResults.piecesRead AddResults.piecesLeft
  split_ifs
  · exact List.take_append_drop _ _
  · rfl

/-- What the copy loop writes for a string is what it has read of it as a text, or nothing. -/
lemma copyLine_sublist_cstr (city piece : Bytes) : (copyLine city piece).Sublist (cstr piece) := by
  simp only [copyLine]
  split_ifs
  · exact List.nil_sublist _
  · exact List.Sublist.refl _

/-- When it writes nothing. -/
lemma copyLine_eq_nil_iff {piece : Bytes} : copyLine city piece = [] ↔ Skipped city piece := by
  simp only [copyLine, Skipped]
  split_ifs with hname
  · simp [hname]
  · simp [hname]

/-- When it writes the string whole. -/
lemma copyLine_eq_self_iff {piece : Bytes} :
    copyLine city piece = piece ↔ (0 : UInt8) ∉ piece ∧ entryName piece ≠ some city := by
  constructor
  · intro hself
    have h0 : (0 : UInt8) ∉ piece := by
      intro hmem
      rw [← hself] at hmem
      exact zero_notMem_cstr piece ((copyLine_sublist_cstr city piece).subset hmem)
    refine ⟨h0, fun hname => ?_⟩
    rw [copyLine, cstr_eq_self h0, if_pos hname] at hself
    rw [← hself] at hname
    simp [entryName_eq_some_iff] at hname
  · rintro ⟨h0, hname⟩
    rw [copyLine, cstr_eq_self h0, if_neg hname]

/-- What the copy loop makes of a line. -/
def copiedText (city text : Bytes) : Bytes := (fgetsAll maxLine text).flatMap (copyLine city)

/-- What should become of a line. -/
def wantedText (city text : Bytes) : Bytes :=
  if nameOf text = some city then []
  else if text.getLast? = some lf then text else text ++ [lf]

/-- The copy loop writes nothing but what it reads. -/
lemma copiedText_sublist (city text : Bytes) : (copiedText city text).Sublist text := by
  conv_rhs => rw [← flatten_fgetsAll (show 2 ≤ maxLine by norm_num) text, ← List.flatMap_id]
  exact List.Sublist.flatMap_right _ fun piece _ =>
    (copyLine_sublist_cstr city piece).trans (cstr_isPrefix piece).sublist

/-- A line is copied whole when all its strings are. -/
lemma copiedText_eq_self_iff {text : Bytes} : copiedText city text = text ↔
    (0 : UInt8) ∉ text ∧ ∀ piece ∈ fgetsAll maxLine text, entryName piece ≠ some city := by
  have hflat := flatten_fgetsAll (show 2 ≤ maxLine by norm_num) text
  have hsub : ∀ piece ∈ fgetsAll maxLine text, (copyLine city piece).Sublist (id piece) :=
    fun piece _ => (copyLine_sublist_cstr city piece).trans (cstr_isPrefix piece).sublist
  have hself : copiedText city text = text ↔
      ∀ piece ∈ fgetsAll maxLine text, copyLine city piece = piece := by
    conv_lhs => rhs; rw [← hflat, ← List.flatMap_id]
    exact flatMap_eq_flatMap_iff hsub
  rw [hself]
  constructor
  · intro h
    refine ⟨fun hmem => ?_, fun piece hpiece => (copyLine_eq_self_iff.mp (h piece hpiece)).2⟩
    rw [← hflat] at hmem
    obtain ⟨piece, hpiece, hzero⟩ := List.mem_flatten.mp hmem
    exact (copyLine_eq_self_iff.mp (h piece hpiece)).1 hzero
  · rintro ⟨h0, hname⟩ piece hpiece
    refine copyLine_eq_self_iff.mpr ⟨fun hmem => h0 ?_, hname piece hpiece⟩
    rw [← hflat]
    exact List.mem_flatten.mpr ⟨piece, hpiece, hmem⟩

/-- The newline of a line does not change its name. -/
lemma nameOf_append_lf (line : Bytes) : nameOf (line ++ [lf]) = nameOf line := by
  unfold nameOf
  cases hcut : cutAt comma line with
  | none =>
    have hcomma : comma ∉ line ++ [lf] :=
      List.not_mem_append (cutAt_eq_none_iff.mp hcut) (by decide)
    rw [cutAt_eq_none_iff.mpr hcomma]
  | some p =>
    obtain ⟨rfl, hcomma⟩ := cutAt_eq_some_iff.mp hcut
    rw [List.append_assoc, List.cons_append, cutAt_append hcomma]
    rfl

/-- The complete new content, line by line. -/
lemma newContent_eq (city : Bytes) (price : ℚ) (old : Bytes) : newContent city price old =
    (lineTexts old).flatMap (wantedText city) ++ (priceLine city price ++ [lf]) := by
  have hlines : ∀ lines : List Bytes, unlines (lines.filter fun line => nameOf line ≠ some city) =
      (lines.map (· ++ [lf])).flatMap (wantedText city) := by
    intro lines
    induction lines with
    | nil => rfl
    | cons line lines ih =>
      rw [List.map_cons, List.flatMap_cons, ← ih]
      by_cases hname : nameOf line = some city
      · simp [hname, wantedText, nameOf_append_lf]
      · simp [hname, wantedText, nameOf_append_lf]
  have hrest : unlines ((if (cutLines old).2 = [] then [] else [(cutLines old).2]).filter
        fun line => nameOf line ≠ some city) =
      (if (cutLines old).2 = [] then [] else [(cutLines old).2]).flatMap (wantedText city) := by
    split_ifs with hnil
    · rfl
    · have hlast : (cutLines old).2.getLast? ≠ some lf := fun hlast =>
        notMem_cutLines_rest old (List.mem_of_getLast? hlast)
      by_cases hname : nameOf (cutLines old).2 = some city
      · simp [hname, wantedText]
      · simp [hname, wantedText, hlast]
  rw [newContent, setEntry, getlines, lineTexts, List.filter_append, unlines_append,
    unlines_append, hlines, hrest, List.flatMap_append]
  simp

/-- If the lines of the city go, nothing is written that should not be. -/
lemma OwnLinesGo.copiedText_sublist (h : OwnLinesGo city old) {text : Bytes}
    (htext : text ∈ lineTexts old) : (copiedText city text).Sublist (wantedText city text) := by
  unfold wantedText
  split_ifs with hname hlast
  · have hnil : copiedText city text = [] := List.flatMap_eq_nil_iff.mpr fun piece hpiece =>
      copyLine_eq_nil_iff.mpr (h text htext hname piece hpiece)
    rw [hnil]
  · exact ParkingSystem.copiedText_sublist city text
  · exact (ParkingSystem.copiedText_sublist city text).trans (List.sublist_append_left _ _)

/-- Then every line becomes what it should exactly when the other lines stay. -/
lemma OwnLinesGo.copiedText_eq_iff (h : OwnLinesGo city old) :
    (∀ text ∈ lineTexts old, copiedText city text = wantedText city text) ↔
      OtherLinesStay city old := by
  refine forall₂_congr fun text htext => ?_
  unfold wantedText
  split_ifs with hname hlast
  · have hnil : copiedText city text = [] := List.flatMap_eq_nil_iff.mpr fun piece hpiece =>
      copyLine_eq_nil_iff.mpr (h text htext hname piece hpiece)
    simp [hnil, hname]
  · simp [copiedText_eq_self_iff, hname, hlast]
  · have hne : copiedText city text ≠ text ++ [lf] := by
      intro heq
      have hlen := (ParkingSystem.copiedText_sublist city text).length_le
      rw [heq, List.length_append, List.length_singleton] at hlen
      omega
    simp [hne, hname, hlast]

/-- What the copy loop writes, line by line. -/
lemma flatMap_copyLine_eq (city old : Bytes) : (fgetsAll maxLine old).flatMap (copyLine city) =
    (lineTexts old).flatMap (copiedText city) := by
  rw [fgetsAll_eq_flatMap (by norm_num), List.flatMap_assoc]
  rfl

/-- The temporary file has the complete new content if the copy is complete. -/
lemma CopyComplete.tmpContent_eq (h : CopyComplete r city price old) :
    r.tmpContent city price old = newContent city price old := by
  have hleft : (r.piecesLeft old).flatMap (copyLine city) = [] :=
    List.flatMap_eq_nil_iff.mpr fun piece hpiece => copyLine_eq_nil_iff.mpr (h.left piece hpiece)
  have hread : (r.piecesRead old).flatMap (copyLine city) =
      (lineTexts old).flatMap (copiedText city) := by
    rw [← flatMap_copyLine_eq, ← r.piecesRead_append old, List.flatMap_append, hleft,
      List.append_nil]
  rw [AddResults.tmpContent, keptBytes_eq_self h.written, AddResults.printed, hread,
    newContent_eq, List.flatMap_congr (h.own.copiedText_eq_iff.mpr h.other)]

/-- If the lines of the city go, it has the complete new content only then. -/
lemma OwnLinesGo.copyComplete (hown : OwnLinesGo city old)
    (heq : r.tmpContent city price old = newContent city price old) :
    CopyComplete r city price old := by
  have hsub : ∀ text ∈ lineTexts old, (copiedText city text).Sublist (wantedText city text) :=
    fun _ htext => hown.copiedText_sublist htext
  have hwanted := List.Sublist.flatMap_right (lineTexts old) hsub
  have hkept := (keptBytes_sublist r.loses (r.printed city price old)).length_le
  have hpieces := congrArg List.length
    (congrArg (List.flatMap (copyLine city)) (r.piecesRead_append old))
  rw [List.flatMap_append, List.length_append, flatMap_copyLine_eq] at hpieces
  -- the lengths leave no room for a loss
  have hle := hwanted.length_le
  have hlen := congrArg List.length heq
  rw [AddResults.tmpContent, newContent_eq, List.length_append] at hlen
  have hprinted : (r.printed city price old).length =
      ((r.piecesRead old).flatMap (copyLine city)).length +
        (priceLine city price ++ [lf]).length := List.length_append
  refine ⟨hown, ?_, ?_, ?_⟩
  · have hall := hwanted.eq_of_length (by omega)
    exact hown.copiedText_eq_iff.mp ((flatMap_eq_flatMap_iff hsub).mp hall)
  · have hnil : (r.piecesLeft old).flatMap (copyLine city) = [] :=
      List.length_eq_zero_iff.mp (by omega)
    exact fun piece hpiece => copyLine_eq_nil_iff.mp (List.flatMap_eq_nil_iff.mp hnil piece hpiece)
  · exact length_keptBytes_eq_iff.mp (by omega)

/-- What `add` does when the temporary file can be opened and has another name. -/
lemma cmdAddUnder_of_ne (city : Bytes) (price : ℚ) (fs : FileSystem Bytes)
    (hopen : r.tmpOpens = true) (hne : tmpPath path ≠ path) :
    (cmdAddUnder r path city price fs).1 = (if r.renames then 0 else -1) ∧
      (cmdAddUnder r path city price fs).2.get path =
        if r.renames then some (r.tmpContent city price ((fs.get path).getD []))
        else fs.get path := by
  have hget : (fs.openWrite (tmpPath path)).2.get path = fs.get path :=
    FileSystem.get_openWrite_of_ne hne.symm
  have hdir : (fs.openWrite (tmpPath path)).2.dir (tmpPath path) =
      some (fs.openWrite (tmpPath path)).1 := FileSystem.dir_openWrite
  have hempty : (fs.openWrite (tmpPath path)).2.inodes (fs.openWrite (tmpPath path)).1 = [] :=
    FileSystem.inodes_openWrite
  have hcontent : ∀ bytes, (fs.openWrite (tmpPath path)).2.writeAt
      (fs.openWrite (tmpPath path)).1 0 bytes =
      (fs.openWrite (tmpPath path)).2.setInode (fs.openWrite (tmpPath path)).1 bytes := by
    intro bytes
    rw [FileSystem.writeAt, hempty]
    exact congrArg _ (overlay_length [] bytes)
  simp only [cmdAddUnder, hopen, if_true, hget, hcontent]
  cases hrename : r.renames with
  | false =>
    refine ⟨rfl, (FileSystem.get_setInode_of_ne ?_ _).trans hget⟩
    intro hpath
    exact hne (FileSystem.dir_inj _ _ _ _ hdir hpath)
  | true =>
    have hdir' : ((fs.openWrite (tmpPath path)).2.setInode (fs.openWrite (tmpPath path)).1
        (r.tmpContent city price ((fs.get path).getD []))).dir (tmpPath path) =
        some (fs.openWrite (tmpPath path)).1 := hdir
    rw [FileSystem.rename_of_some hdir' hne]
    exact ⟨rfl, (FileSystem.get_move hne).trans (FileSystem.get_setInode hdir _)⟩

/-- What `add` being atomic means, when the temporary file has another name. -/
lemma addAtomic_of_ne (hne : tmpPath path ≠ path) : AddAtomic r path city price fs ↔
    r.tmpOpens = false ∨ r.renames = false ∨
      r.tmpContent city price ((fs.get path).getD []) =
        newContent city price ((fs.get path).getD []) := by
  simp only [AddAtomic, hne, ne_eq, not_false_eq_true, true_and]
  cases hopen : r.tmpOpens with
  | false => simp [cmdAddUnder, hopen]
  | true =>
    obtain ⟨hresult, hget⟩ := cmdAddUnder_of_ne city price fs hopen hne
    rw [hresult, hget]
    cases hrename : r.renames with
    | false => simp
    | true => simp

/-- Of a file without NUL whose lines fit the buffer, the lines of a city go as a whole, and the
others stay unless the last of them is unfinished. -/
theorem ShortLines.ownLinesGo (hfile : ShortLines old) (hcomma : comma ∉ city) (hcr : cr ∉ city)
    (hlf : lf ∉ city) :
    OwnLinesGo city old ∧ (OtherLinesStay city old ↔
      (cutLines old).2 = [] ∨ nameOf (cutLines old).2 = some city) := by
  obtain ⟨hlines, h0, hlen⟩ := hfile.parts
  -- every line is read as one string
  have hone : ∀ text ∈ lineTexts old, fgetsAll maxLine text = [text] ∧ (0 : UInt8) ∉ text := by
    intro text htext
    rcases List.mem_append.mp htext with htext | htext
    · obtain ⟨line, hline, rfl⟩ := List.mem_map.mp htext
      obtain ⟨hnl, hzero, hshort⟩ := hlines line hline
      refine ⟨?_, List.not_mem_append hzero (by decide)⟩
      exact fgetsAll_line hnl (show line.length + 2 ≤ 256 by omega) []
    · split_ifs at htext with hnil
      · simp at htext
      · obtain rfl := List.mem_singleton.mp htext
        exact ⟨fgetsAll_rest (notMem_cutLines_rest old) hnil (show _ < 256 by omega), h0⟩
  have hname : ∀ text, entryName text = some city ↔ nameOf text = some city :=
    fun _ => entryName_eq_iff_nameOf hcomma hcr hlf
  constructor
  · intro text htext hown piece hpiece
    obtain ⟨hread, hzero⟩ := hone text htext
    rw [hread, List.mem_singleton] at hpiece
    exact .inl (by rw [hpiece, cstr_eq_self hzero, hname, hown])
  · have hstay : OtherLinesStay city old ↔
        ∀ text ∈ lineTexts old, nameOf text ≠ some city → text.getLast? = some lf := by
      refine forall₂_congr fun text htext => imp_congr_right fun hother => ?_
      obtain ⟨hread, hzero⟩ := hone text htext
      simp [hread, hzero, hname, hother]
    rw [hstay, lineTexts, List.forall_mem_append]
    have hlast : (cutLines old).2.getLast? ≠ some lf := fun hlast =>
      notMem_cutLines_rest old (List.mem_of_getLast? hlast)
    by_cases hnil : (cutLines old).2 = []
    · simp [hnil]
    · simp [hnil, hlast]

/-- A file system with a prices file. -/
def pricesOnDisk (text : Bytes) : FileSystem Bytes :=
  let (i, fs) := FileSystem.empty.openWrite (ascii "prices")
  fs.writeAt i 0 text

-- what is left of a line of the city that does not fit the buffer is lost, as it happens
example :
    let old := ascii "Haifa," ++ List.replicate 300 49 ++ [lf]
    ¬ OwnLinesGo (ascii "Haifa") old ∧
      AddAtomic ⟨true, true, 2, fun n => n < 52, true⟩ (ascii "prices") (ascii "Haifa") (1 / 2)
        (pricesOnDisk old) := by decide +kernel

end Atomic

end ParkingSystem
