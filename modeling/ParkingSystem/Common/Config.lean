import ParkingSystem.Common
import ParkingSystem.Foundation.Lines
import ParkingSystem.Foundation.Replay
import ParkingSystem.Foundation.Strip
import Mathlib.Logic.Relation

/-!
# The configuration file

The class `Config` of `common/Config.hpp`.  Its constructor reads a text of `KEY=VALUE` lines into a
map, and `get` answers from the map.

A line that is not blank, is no comment and holds a `=` is an assignment.  The map is the log of the
assignments replayed, so `get` answers with the last one to the key.  What assigns nothing, and
whitespace around a line, a key or a value, may be put anywhere in the file or taken out of it.
-/

namespace ParkingSystem

open Foundation

/-- The byte between a key and its value. -/
abbrev equals : UInt8 := 61

/-- `Config`. -/
structure Config where
  /-- `map_`. -/
  map : Bytes → Option Bytes

namespace Config

/-! ## The code -/

/-- `ws`: space, tab, carriage return and newline. -/
def ws : Bytes := [32, 9, cr, lf]

/-- `Config::trim`. -/
def trim (s : Bytes) : Bytes :=
  let s := erase s 0 (findFirstNotOf ws s)
  match findLastNotOf ws s with
  | some last => erase s (last + 1) none
  | none => []

/-- One turn of the reading loop. -/
def readLine (cfg : Config) (line : Bytes) : Config :=
  let line := trim line
  if line = [] ∨ line.head? = some hash then cfg
  else match cutAt equals line with
    | none => cfg
    | some (key, val) => ⟨Function.update cfg.map (trim key) (some (trim val))⟩

/-- `Config::Config`: the constructor, where `none` is a file that cannot be opened. -/
def load (file : Option Bytes) : Config :=
  match file with
  | none => ⟨fun _ => none⟩
  | some text => (getlines text).foldl readLine ⟨fun _ => none⟩

/-- `Config::get`. -/
def get (cfg : Config) (key default : Bytes) : Bytes :=
  match cfg.map key with
  | some val => val
  | none => default

/-! ## Assignments -/

/-- Spaces, tabs, carriage returns and newlines. -/
def isSpace (b : UInt8) : Bool := b ∈ ws

/-- What a line assigns: a key, and the value for it.  Blank lines, comments and lines without `=`
assign nothing. -/
def assignment (line : Bytes) : Option (Bytes × Bytes) :=
  let text := strip isSpace line
  if text = [] ∨ text.head? = some hash then none
  else (cutAt equals text).map fun p => (strip isSpace p.1, strip isSpace p.2)

/-- The assignments of a file, in its order. -/
def assignments (file : Bytes) : List (Bytes × Bytes) := (getlines file).filterMap assignment

/-- The value of the last assignment to a key. -/
def lastAssigned (key : Bytes) (l : List (Bytes × Bytes)) : Option Bytes :=
  (l.filter fun p => p.1 = key).getLast?.map Prod.snd

/-! ## Edits without effect -/

/-- A line of the file starts behind `a`. -/
def LineStart (a : Bytes) : Prop := a = [] ∨ a.getLast? = some lf

/-- A line of the file ends before `b`. -/
def LineEnd (b : Bytes) : Prop := b = [] ∨ b.head? = some lf

/-- A text of whitespace. -/
def Blank (w : Bytes) : Prop := ∀ b ∈ w, isSpace b

instance decidableBlank (w : Bytes) : Decidable (Blank w) :=
  List.decidableBAll (fun b => isSpace b) w

/-- A line that is blank, is a comment, or holds no `=`. -/
inductive Ignored : Bytes → Prop
  | blank {l : Bytes} (hl : Blank l) : Ignored l
  | comment {w : Bytes} (hw : Blank w) (text : Bytes) : Ignored (w ++ hash :: text)
  | noEquals {l : Bytes} (hl : equals ∉ l) : Ignored l

/-- One addition to a file.  A newline may be added where a line starts or ends; beside the `=` of
a line it would end the line. -/
inductive Edit : Bytes → Bytes → Prop
  /-- A line that assigns nothing. -/
  | line {a l : Bytes} (ha : LineStart a) (hl : Ignored l) (hlf : lf ∉ l) (b : Bytes) :
      Edit (a ++ b) (a ++ (l ++ lf :: b))
  /-- Such a line at the end of the file, without a newline. -/
  | lastLine {a l : Bytes} (ha : LineStart a) (hl : Ignored l) (hlf : lf ∉ l) : Edit a (a ++ l)
  /-- A carriage return before a newline. -/
  | crlf (a b : Bytes) : Edit (a ++ lf :: b) (a ++ cr :: lf :: b)
  /-- Whitespace before a line. -/
  | beforeLine {a w : Bytes} (ha : LineStart a) (hw : Blank w) (b : Bytes) :
      Edit (a ++ b) (a ++ (w ++ b))
  /-- Whitespace behind a line. -/
  | afterLine {w b : Bytes} (a : Bytes) (hw : Blank w) (hb : LineEnd b) :
      Edit (a ++ b) (a ++ (w ++ b))
  /-- Whitespace between a key and its `=`. -/
  | afterKey {a k w : Bytes} (ha : LineStart a) (hlf : lf ∉ k) (heq : equals ∉ k) (hw : Blank w)
      (hwlf : lf ∉ w) (b : Bytes) :
      Edit (a ++ (k ++ equals :: b)) (a ++ (k ++ (w ++ equals :: b)))
  /-- Whitespace between a `=` and the value. -/
  | beforeValue {a k w : Bytes} (ha : LineStart a) (hlf : lf ∉ k) (heq : equals ∉ k) (hw : Blank w)
      (hwlf : lf ∉ w) (b : Bytes) :
      Edit (a ++ (k ++ equals :: b)) (a ++ (k ++ equals :: (w ++ b)))

section Laws

variable {a b k l w x y file file' : Bytes}

/-! ## Reading as a replay -/

/-- Trimming is stripping of whitespace. -/
lemma trim_eq_strip (s : Bytes) : trim s = strip isSpace s := by
  refine (erase_findLastNotOf ws _).trans ?_
  rw [erase_findFirstNotOf]
  rfl

/-- A turn of the loop applies the line's assignment. -/
lemma map_readLine (cfg : Config) (line : Bytes) :
    (readLine cfg line).map =
      replay cfg.map ((assignment line).toList.map fun p => .put p.1 p.2) := by
  unfold readLine assignment
  simp only [trim_eq_strip]
  split_ifs with hskip
  · rfl
  · cases cutAt equals (strip isSpace line) <;> rfl

/-- The loop applies the assignments of its lines, oldest first. -/
lemma map_foldl_readLine (cfg : Config) (lines : List Bytes) :
    (lines.foldl readLine cfg).map =
      replay cfg.map ((lines.filterMap assignment).map fun p => .put p.1 p.2) := by
  induction lines generalizing cfg with
  | nil => rfl
  | cons line lines ih =>
    rw [List.foldl_cons, ih, map_readLine, ← replay_append, ← List.map_append]
    congr 2
    cases h : assignment line <;> simp [h]

/-- The map of a file is the log of its assignments replayed. -/
lemma map_load (file : Bytes) :
    (load (some file)).map =
      replay (fun _ => none) ((assignments file).map fun p => .put p.1 p.2) :=
  map_foldl_readLine ⟨fun _ => none⟩ (getlines file)

/-- The last write of a log of assignments is the last assignment. -/
lemma lastWrite_put (key : Bytes) (l : List (Bytes × Bytes)) :
    lastWrite key (l.map fun p => .put p.1 p.2) = (lastAssigned key l).map some := by
  unfold lastWrite lastAssigned
  rw [List.filter_map, List.getLast?_map, Option.map_map, Option.map_map]
  rfl

/-- `get` answers with the last assignment. -/
lemma get_load (file key default : Bytes) :
    (load (some file)).get key default = (lastAssigned key (assignments file)).getD default := by
  unfold get
  rw [map_load, replay_apply, lastWrite_put]
  cases lastAssigned key (assignments file) <;> rfl

/-! ## Assignments and line ends -/

/-- Every text is a line and what starts with its end. -/
lemma exists_append_lineEnd (s : Bytes) : ∃ l e, s = l ++ e ∧ lf ∉ l ∧ LineEnd e := by
  cases hcut : cutAt lf s with
  | none => exact ⟨s, [], by simp, cutAt_eq_none_iff.mp hcut, .inl rfl⟩
  | some p =>
    obtain ⟨rfl, hl⟩ := cutAt_eq_some_iff.mp hcut
    exact ⟨p.1, lf :: p.2, rfl, hl, .inr rfl⟩

lemma LineEnd.append (ha : LineEnd a) (hb : LineEnd b) : LineEnd (a ++ b) := by
  rcases ha with rfl | ha
  · exact hb
  · exact .inr (by simp [ha])

@[simp] lemma assignment_nil : assignment [] = none := by simp [assignment]

/-- The first line of a text is read first. -/
lemma assignments_append_lf (hl : lf ∉ l) (b : Bytes) :
    assignments (l ++ lf :: b) = (assignment l).toList ++ assignments b := by
  rw [assignments, getlines_eq_loop, getline_append hl]
  cases h : assignment l <;> simp [assignments, h]

/-- The lines of a text are read one by one. -/
lemma assignments_append_lineEnd (hl : lf ∉ l) (hb : LineEnd b) :
    assignments (l ++ b) = (assignment l).toList ++ assignments b := by
  rcases hb with rfl | hb
  · rw [List.append_nil]
    by_cases hnil : l = []
    · subst hnil
      simp
    · rw [assignments, getlines_eq_loop, getline_of_notMem hnil hl]
      cases h : assignment l <;> simp [assignments, h]
  · obtain ⟨b', rfl⟩ := List.head?_eq_some_iff.mp hb
    have hempty : assignments (lf :: b') = assignments b' := by
      simpa using assignments_append_lf (l := []) List.not_mem_nil b'
    rw [assignments_append_lf hl, hempty]

/-- What is complete of a text is read first. -/
lemma assignments_append (a x : Bytes) :
    assignments (a ++ x) =
      (cutLines a).1.filterMap assignment ++ assignments ((cutLines a).2 ++ x) := by
  unfold assignments
  rw [getlines_append, List.filterMap_append]

/-- Where a line starts, everything before it is complete. -/
lemma LineStart.rest_eq_nil (ha : LineStart a) : (cutLines a).2 = [] := by
  rcases ha with rfl | ha
  · rfl
  · obtain ⟨a', rfl⟩ := List.getLast?_eq_some_iff.mp ha
    rw [cutLines_append, cutLines_line (notMem_cutLines_rest a')]
    rfl

/-- Texts with the same assignments may be exchanged where a line starts. -/
lemma assignments_append_congr (ha : LineStart a) (h : assignments x = assignments y) :
    assignments (a ++ x) = assignments (a ++ y) := by
  rw [assignments_append, assignments_append a y, ha.rest_eq_nil, List.nil_append, List.nil_append,
    h]

/-- Beginnings of a line may be exchanged if no continuation of the line sees the difference. -/
lemma assignments_congr_line (hx : lf ∉ x) (hy : lf ∉ y)
    (h : ∀ r, assignment (x ++ r) = assignment (y ++ r)) (b : Bytes) :
    assignments (x ++ b) = assignments (y ++ b) := by
  obtain ⟨l, e, rfl, hl, he⟩ := exists_append_lineEnd b
  rw [← List.append_assoc, ← List.append_assoc,
    assignments_append_lineEnd (List.not_mem_append hx hl) he,
    assignments_append_lineEnd (List.not_mem_append hy hl) he, h l]

/-! ## Whitespace -/

lemma Blank.of_append (h : Blank (x ++ y)) : Blank x ∧ Blank y :=
  List.forall_mem_append.mp h

/-- Whitespace before a line is not read. -/
lemma assignment_append_left (hw : Blank w) (l : Bytes) :
    assignment (w ++ l) = assignment l := by
  unfold assignment
  rw [strip_append_left hw]

/-- Whitespace behind a line is not read. -/
lemma assignment_append_right (hw : Blank w) (l : Bytes) :
    assignment (l ++ w) = assignment l := by
  unfold assignment
  rw [strip_append_right hw]

/-- Whitespace before a text is not read, however many lines it makes up. -/
lemma assignments_blank_append (hw : Blank w) (b : Bytes) :
    assignments (w ++ b) = assignments b := by
  induction w with
  | nil => rfl
  | cons c w ih =>
    have htail : assignments (w ++ b) = assignments b := ih fun d hd => hw d (by simp [hd])
    by_cases hc : c = lf
    · subst hc
      rw [← htail, List.cons_append]
      exact assignments_append_lineEnd (l := []) (by simp) (.inr rfl)
    · have hblank : Blank [c] := by simpa [Blank] using hw c (by simp)
      rw [← htail]
      exact assignments_congr_line (x := [c]) (y := []) (by simpa using Ne.symm hc) (by simp)
        (assignment_append_left hblank) (w ++ b)

/-- Whitespace behind a line is not read, however many lines it makes up. -/
lemma assignments_append_blank (a : Bytes) (hw : Blank w) (hb : LineEnd b) :
    assignments (a ++ (w ++ b)) = assignments (a ++ b) := by
  have hu : lf ∉ (cutLines a).2 := notMem_cutLines_rest a
  obtain ⟨r, e, rfl, hr, he⟩ := exists_append_lineEnd w
  obtain ⟨hrblank, heblank⟩ := hw.of_append
  rw [assignments_append, assignments_append a b, List.append_assoc, ← List.append_assoc _ r,
    assignments_append_lineEnd (List.not_mem_append hu hr) (he.append hb),
    assignments_append_lineEnd hu hb, assignment_append_right hrblank,
    assignments_blank_append heblank]

/-- A line with a `=` assigns unless it is a comment. -/
lemma assignment_append_equals (hk : equals ∉ k) (y : Bytes) :
    assignment (k ++ equals :: y) =
      if (strip isSpace k).head? = some hash then none
      else some (strip isSpace k, strip isSpace y) := by
  have hspace : isSpace equals = false := by decide
  have hhash : equals ≠ hash := by decide
  have hdrop : equals ∉ k.dropWhile isSpace := fun h => hk ((List.dropWhile_suffix _).mem h)
  have hhead : (k.dropWhile isSpace ++ equals :: y.rdropWhile isSpace).head? = some hash ↔
      (strip isSpace k).head? = some hash := by
    rw [head?_strip]
    cases k.dropWhile isSpace <;> simp [hhash]
  unfold assignment
  simp only [strip_append_cons hspace, hhead, List.append_eq_nil_iff, reduceCtorEq, and_false,
    false_or, cutAt_append hdrop, Option.map_some, strip_dropWhile, strip_rdropWhile]

/-- Whitespace at the `=` does not change what a line assigns. -/
lemma assignment_around_equals (hk : equals ∉ k) (hw : Blank w) (y : Bytes) :
    assignment (k ++ (w ++ equals :: y)) = assignment (k ++ equals :: y) ∧
      assignment (k ++ equals :: (w ++ y)) = assignment (k ++ equals :: y) := by
  have hkw : equals ∉ k ++ w := by
    exact List.not_mem_append hk fun h => absurd (hw equals h) (by decide)
  constructor
  · rw [← List.append_assoc, assignment_append_equals hkw, assignment_append_equals hk,
      strip_append_right hw]
  · rw [assignment_append_equals hk, assignment_append_equals hk, strip_append_left hw]

/-- Whitespace at the first `=` of a line, short of a newline, is not read. -/
lemma assignments_around_equals (hlf : lf ∉ k) (heq : equals ∉ k) (hw : Blank w) (hwlf : lf ∉ w)
    (b : Bytes) :
    assignments (k ++ (w ++ equals :: b)) = assignments (k ++ equals :: b) ∧
      assignments (k ++ equals :: (w ++ b)) = assignments (k ++ equals :: b) := by
  have hsep : lf ∉ [equals] := by decide
  have hkey : lf ∉ k ++ [equals] := List.not_mem_append hlf hsep
  constructor
  · have hline := assignments_congr_line (x := k ++ (w ++ [equals])) (y := k ++ [equals])
      (List.not_mem_append hlf (List.not_mem_append hwlf hsep)) hkey
      (fun r => by simpa using (assignment_around_equals heq hw r).1) b
    simpa using hline
  · have hline := assignments_congr_line (x := k ++ ([equals] ++ w)) (y := k ++ [equals])
      (List.not_mem_append hlf (List.not_mem_append hsep hwlf)) hkey
      (fun r => by simpa using (assignment_around_equals heq hw r).2) b
    simpa using hline

/-! ## Edits -/

/-- Blank lines, comments and lines without `=` assign nothing. -/
lemma Ignored.assignment_eq_none (hl : Ignored l) : assignment l = none := by
  unfold assignment
  cases hl with
  | blank hl => simp [strip_eq_nil hl]
  | comment hw text =>
    have hspace : isSpace hash = false := by decide
    rw [strip_append_left hw, ← List.nil_append (hash :: text), strip_append_cons hspace]
    simp
  | noEquals hl =>
    have hcut : cutAt equals (strip isSpace l) = none := by
      exact cutAt_eq_none_iff.mpr fun h => hl (mem_of_mem_strip h)
    simp [hcut]

/-- An edit leaves the assignments of a file alone. -/
lemma Edit.assignments_eq (h : Edit file file') : assignments file' = assignments file := by
  cases h with
  | line ha hl hlf b =>
    refine assignments_append_congr ha ?_
    rw [assignments_append_lineEnd hlf (.inr rfl), hl.assignment_eq_none]
    exact assignments_blank_append (w := [lf]) (by decide) b
  | @lastLine _ l ha hl hlf =>
    have hline : assignments (l ++ []) = assignments [] := by
      rw [assignments_append_lineEnd hlf (.inl rfl), hl.assignment_eq_none]
      rfl
    simpa using assignments_append_congr ha hline
  | crlf a b =>
    exact assignments_append_blank (w := [cr]) a (by decide) (.inr rfl)
  | beforeLine ha hw b => exact assignments_append_congr ha (assignments_blank_append hw b)
  | afterLine a hw hb => exact assignments_append_blank a hw hb
  | afterKey ha hlf heq hw hwlf b =>
    exact assignments_append_congr ha (assignments_around_equals hlf heq hw hwlf b).1
  | beforeValue ha hlf heq hw hwlf b =>
    exact assignments_append_congr ha (assignments_around_equals hlf heq hw hwlf b).2

/-- Files that differ by edits have the same assignments. -/
lemma assignments_eq_of_edits (h : Relation.EqvGen Edit file file') :
    assignments file' = assignments file := by
  induction h with
  | rel _ _ h => exact h.assignments_eq
  | refl _ => rfl
  | symm _ _ _ ih => exact ih.symm
  | trans _ _ _ _ _ ih ih' => exact ih'.trans ih

/-- **What the configuration answers.**  `get` answers with the last assignment to the key, or with
the default if there is none; and it answers the same for two files of which one becomes the other
by adding and removing blank lines, comments, lines without `=`, carriage returns before newlines,
and whitespace around lines, keys and values. -/
theorem get_config (file key default : Bytes) :
    (load (some file)).get key default = (lastAssigned key (assignments file)).getD default ∧
      ∀ file', Relation.EqvGen Edit file file' →
        (load (some file')).get key default = (load (some file)).get key default := by
  refine ⟨get_load file key default, ?_⟩
  intro file' hedits
  rw [get_load, get_load, assignments_eq_of_edits hedits]

/-- The answer for a file with a comment, a space before the value and a carriage return. -/
theorem get_config_port :
    (load (some (ascii "# port\nPORT= 80\r\n"))).get (ascii "PORT") [] = ascii "80" := by
  have hvalue : Edit (ascii "PORT=80") (ascii "PORT= 80") :=
    .beforeValue (a := []) (k := ascii "PORT") (w := [32]) (.inl rfl) (by decide) (by decide)
      (by decide) (by decide) (ascii "80")
  have hend : Edit (ascii "PORT= 80") (ascii "PORT= 80\r\n") :=
    .afterLine (w := [cr, lf]) (b := []) (ascii "PORT= 80") (by decide) (.inl rfl)
  have hcomment : Edit (ascii "PORT= 80\r\n") (ascii "# port\nPORT= 80\r\n") :=
    .line (a := []) (l := ascii "# port") (.inl rfl)
      (.comment (w := []) (by decide) (ascii " port")) (by decide) (ascii "PORT= 80\r\n")
  have hedits := ((Relation.EqvGen.rel _ _ hvalue).trans _ _ _ (.rel _ _ hend)).trans _ _ _
    (.rel _ _ hcomment)
  exact ((get_config _ (ascii "PORT") []).2 _ hedits).trans (by decide +kernel)

end Laws

end Config

end ParkingSystem
