import ParkingSystem.Foundation.FileSystem
import ParkingSystem.Foundation.Trace
import ParkingSystem.Db.PriceUpdater

/-!
# Two price updaters at once

Two commands of `price_updater` run as two processes on one prices file, and their file operations
interleave.  Nothing locks the file.  `add` copies the prices file to `prices_file.tmp`, which all
processes share, and renames it to the prices file; `remove` appends to the prices file.

Of two overlapping `add` commands only one succeeds: each one opens the temporary file once, and the
first `rename` takes it away.  An overlapping `remove` is lost when its marker comes to a file that
has been read to its end, or that has been replaced.  Otherwise the commands run one after the other
in effect; `Progress` says how far a command is if it is the only one that has changed the files
since the prices file had a given content.
-/

namespace ParkingSystem

open Foundation

/-- The two paths of a price updater. -/
inductive UpdaterPath where
  /-- `prices_file`. -/
  | prices
  /-- `tmp_path`. -/
  | tmp
deriving DecidableEq

/-- Where a price updater is.  `out` is the temporary file and `inp` the prices file that it has
open. -/
inductive UpdaterPc where
  /-- Before the first file operation. -/
  | start
  /-- `add`: the temporary file is open. -/
  | opened (out : ℕ)
  /-- `add`: at the head of the copy loop; `eof` is the end-of-file indicator of the stream. -/
  | copyLoop (out wpos inp rpos : ℕ) (eof : Bool)
  /-- `add`: a string is read and not yet copied. -/
  | copying (out wpos inp rpos : ℕ) (eof : Bool) (piece : Bytes)
  /-- `add`: behind the copy loop. -/
  | newEntry (out wpos : ℕ)
  /-- `add`: the temporary file is written. -/
  | beforeRename
  /-- `remove`: the prices file is open. -/
  | appending (inp : ℕ)
  /-- The command has returned, and reports success or not. -/
  | done (success : Bool)
deriving DecidableEq

/-- One file operation of a command. -/
def updaterStep (cmd : Command) (fs : FileSystem UpdaterPath) (pc : UpdaterPc) :
    Option (FileSystem UpdaterPath × UpdaterPc) :=
  match cmd, pc with
  | .add _ _, .start =>
    let (out, fs) := fs.openWrite .tmp
    some (fs, .opened out)
  | .add _ _, .opened out =>
    match fs.dir .prices with
    | none => some (fs, .newEntry out 0)
    | some inp => some (fs, .copyLoop out 0 inp 0 false)
  | .add _ _, .copyLoop out wpos inp rpos eof =>
    -- a stream that came to the end of its file stays there
    if eof then some (fs, .newEntry out wpos)
    else match fgets maxLine ((fs.inodes inp).drop rpos) with
      | none => some (fs, .newEntry out wpos)
      | some (piece, _) =>
        some (fs, .copying out wpos inp (rpos + piece.length) (hitEof maxLine piece) piece)
  | .add city _, .copying out wpos inp rpos eof piece =>
    some (fs.writeAt out wpos (copyLine city piece),
      .copyLoop out (wpos + (copyLine city piece).length) inp rpos eof)
  | .add city price, .newEntry out wpos =>
    some (fs.writeAt out wpos (priceLine city price ++ [lf]), .beforeRename)
  | .add _ _, .beforeRename =>
    match fs.rename .tmp .prices with
    | none => some (fs, .done false)
    | some fs => some (fs, .done true)
  | .remove _, .start =>
    let (inp, fs) := fs.openAppend .prices
    some (fs, .appending inp)
  | .remove city, .appending inp => some (fs.append inp (removeLine city ++ [lf]), .done true)
  | _, _ => none

namespace UpdaterPc

/-- The process has changed no file yet. -/
def Untouched : UpdaterPc → Prop
  | start => True
  | appending _ => True
  | _ => False

/-- The process is between the end of the prices file and its `rename`. -/
def pastEnd : UpdaterPc → Bool
  | copyLoop _ _ _ _ eof => eof
  | copying _ _ _ _ eof _ => eof
  | newEntry _ _ => true
  | beforeRename => true
  | _ => false

/-- The process is inside `add`. -/
def InAdd : UpdaterPc → Prop
  | start => False
  | appending _ => False
  | done _ => False
  | _ => True

end UpdaterPc

/-! ## One command alone -/

/-- What `add` has copied of a file that it has read up to a position.  As long as it has not come
to the end, this does not depend on what the file will be extended by. -/
def Copied (city file written : Bytes) (rpos : ℕ) (eof : Bool) : Prop :=
  if eof then written = (fgetsAll maxLine file).flatMap (copyLine city)
  else rpos ≤ file.length ∧ ∃ pieces : List Bytes, written = pieces.flatMap (copyLine city) ∧
    ∀ t, fgetsAll maxLine (file ++ t) = pieces ++ fgetsAll maxLine (file.drop rpos ++ t)

/-- How far a command is, if no other process has changed the files since the content of the prices
file was `file`. -/
def Progress (file : Bytes) (fs : FileSystem UpdaterPath) : Command → UpdaterPc → Prop
  | _, .start => fs.get .prices = some file
  | .add _ _, .opened out =>
    fs.get .prices = some file ∧ fs.dir .tmp = some out ∧ fs.inodes out = []
  | .add city _, .copyLoop out wpos inp rpos eof =>
    fs.get .prices = some file ∧ fs.dir .prices = some inp ∧ fs.dir .tmp = some out ∧
      (fs.inodes out).length = wpos ∧ Copied city file (fs.inodes out) rpos eof
  | .add city _, .copying out wpos inp rpos eof piece =>
    fs.get .prices = some file ∧ fs.dir .prices = some inp ∧ fs.dir .tmp = some out ∧
      (fs.inodes out).length = wpos ∧
      Copied city file (fs.inodes out ++ copyLine city piece) rpos eof
  | .add city _, .newEntry out wpos =>
    fs.get .prices = some file ∧ fs.dir .tmp = some out ∧ (fs.inodes out).length = wpos ∧
      fs.inodes out = (fgetsAll maxLine file).flatMap (copyLine city)
  | .add city price, .beforeRename =>
    fs.get .prices = some file ∧ fs.get .tmp = some (cmdAdd city price file)
  | .remove _, .appending _ => fs.get .prices = some file
  | cmd, .done success => success = true ∧ fs.get .prices = some (cmd.run file)
  | _, _ => False

section Alone

variable {file : Bytes} {fs fs' : FileSystem UpdaterPath} {cmd : Command} {pc pc' : UpdaterPc}
  {city : Bytes} {written piece rest : Bytes} {rpos : ℕ}

/-- At the beginning nothing is copied. -/
lemma copied_nil (city file : Bytes) : Copied city file [] 0 false := by
  refine ⟨Nat.zero_le _, [], rfl, fun t => ?_⟩
  rw [List.drop_zero, List.nil_append]

/-- At the end of the file all of it is copied. -/
lemma Copied.of_fgets_none (h : Copied city file written rpos false)
    (hend : fgets maxLine (file.drop rpos) = none) :
    written = (fgetsAll maxLine file).flatMap (copyLine city) := by
  obtain ⟨-, pieces, hwritten, hall⟩ := h
  have hfile := hall []
  have hnil : file.drop rpos = [] := by
    by_contra hne
    unfold fgets at hend
    rw [if_neg hne] at hend
    split at hend <;> cases hend
  rw [hnil, List.append_nil, List.append_nil] at hfile
  rw [hwritten, hfile]
  simp [fgetsAll, fgetsLoop]

/-- One more string is copied. -/
lemma Copied.of_fgets_some (h : Copied city file written rpos false)
    (hcall : fgets maxLine (file.drop rpos) = some (piece, rest)) :
    Copied city file (written ++ copyLine city piece) (rpos + piece.length)
      (hitEof maxLine piece) := by
  obtain ⟨hle, pieces, hwritten, hall⟩ := h
  have hbuf : 2 ≤ maxLine := by norm_num
  have hrest : file.drop (rpos + piece.length) = rest := by
    rw [← List.drop_drop, ← append_of_fgets hcall, List.drop_left]
  have hlen : rpos + piece.length ≤ file.length := by
    have hsum := congrArg List.length (append_of_fgets hcall)
    rw [List.length_append, List.length_drop] at hsum
    omega
  cases hend : hitEof maxLine piece with
  | true =>
    have hfile := hall []
    rw [List.append_nil, List.append_nil, fgetsAll_of_fgets hbuf hcall,
      rest_eq_nil_of_hitEof hcall hend] at hfile
    simp only [Copied, if_true]
    rw [hwritten, hfile]
    simp [fgetsAll, fgetsLoop]
  | false =>
    refine ⟨hlen, pieces ++ [piece], by rw [hwritten]; simp, fun t => ?_⟩
    rw [hall t, fgetsAll_of_fgets hbuf (fgets_append hcall hend t), hrest, List.append_assoc]
    rfl

/-- What is copied before the end of the file does not change when the file is extended. -/
lemma Copied.append (h : Copied city file written rpos false) (t : Bytes) :
    Copied city (file ++ t) written rpos false := by
  obtain ⟨hle, pieces, hwritten, hall⟩ := h
  refine ⟨by rw [List.length_append]; omega, pieces, hwritten, fun t' => ?_⟩
  rw [List.append_assoc, hall, List.drop_append_of_le_length hle, List.append_assoc]

/-- A write to the temporary file does not change the prices file. -/
lemma get_prices_writeAt {out wpos : ℕ} (h : fs.dir .tmp = some out) (bytes : Bytes) :
    (fs.writeAt out wpos bytes).get .prices = fs.get .prices := by
  apply FileSystem.get_setInode_of_ne
  intro hp
  exact absurd (fs.dir_inj _ _ _ hp h) (by decide)

/-- A write at the end of the temporary file. -/
lemma inodes_writeAt {out wpos : ℕ} (h : (fs.inodes out).length = wpos) (bytes : Bytes) :
    (fs.writeAt out wpos bytes).inodes out = fs.inodes out ++ bytes := by
  subst h
  simp [FileSystem.writeAt, FileSystem.setInode]

/-- **A command alone.**  No step of a command loses track of the file; the marker of a `remove` has
to come to the file that is at the path. -/
lemma Progress.step (h : Progress file fs cmd pc)
    (hfresh : ∀ city i, cmd = .remove city → pc = .appending i → fs.dir .prices = some i)
    (hs : updaterStep cmd fs pc = some (fs', pc')) :
    Progress file fs' cmd pc' := by
  cases cmd with
  | add city price =>
    cases pc with
    | start =>
      simp only [updaterStep, Option.some.injEq, Prod.mk.injEq] at hs
      obtain ⟨rfl, rfl⟩ := hs
      refine ⟨?_, FileSystem.dir_openWrite, FileSystem.inodes_openWrite⟩
      rw [FileSystem.get_openWrite_of_ne (by decide)]
      exact h
    | opened out =>
      obtain ⟨hfile, htmp, hempty⟩ := h
      obtain ⟨inp, hdir, -⟩ := FileSystem.get_eq_some_iff.mp hfile
      simp only [updaterStep, hdir, Option.some.injEq, Prod.mk.injEq] at hs
      obtain ⟨rfl, rfl⟩ := hs
      refine ⟨hfile, hdir, htmp, by rw [hempty]; rfl, ?_⟩
      rw [hempty]
      exact copied_nil city file
    | copyLoop out wpos inp rpos eof =>
      obtain ⟨hfile, hdir, htmp, hlen, hcopied⟩ := h
      obtain ⟨inp', hdir', hinode⟩ := FileSystem.get_eq_some_iff.mp hfile
      obtain rfl : inp' = inp := Option.some.inj (hdir'.symm.trans hdir)
      cases eof with
      | true =>
        obtain ⟨rfl, rfl⟩ := Prod.mk.inj (Option.some.inj hs)
        exact ⟨hfile, htmp, hlen, hcopied⟩
      | false =>
        simp only [updaterStep, hinode, Bool.false_eq_true, if_false] at hs
        cases hcall : fgets maxLine (file.drop rpos) with
        | none =>
          rw [hcall] at hs
          obtain ⟨rfl, rfl⟩ := Prod.mk.inj (Option.some.inj hs)
          exact ⟨hfile, htmp, hlen, hcopied.of_fgets_none hcall⟩
        | some p =>
          obtain ⟨piece, rest⟩ := p
          rw [hcall] at hs
          obtain ⟨rfl, rfl⟩ := Prod.mk.inj (Option.some.inj hs)
          exact ⟨hfile, hdir, htmp, hlen, hcopied.of_fgets_some hcall⟩
    | copying out wpos inp rpos eof piece =>
      obtain ⟨hfile, hdir, htmp, hlen, hcopied⟩ := h
      obtain ⟨rfl, rfl⟩ := Prod.mk.inj (Option.some.inj hs)
      refine ⟨(get_prices_writeAt htmp _).trans hfile, hdir, htmp, ?_, ?_⟩
      · rw [inodes_writeAt hlen, List.length_append, hlen]
      · rw [inodes_writeAt hlen]
        exact hcopied
    | newEntry out wpos =>
      obtain ⟨hfile, htmp, hlen, hcopied⟩ := h
      obtain ⟨rfl, rfl⟩ := Prod.mk.inj (Option.some.inj hs)
      refine ⟨(get_prices_writeAt htmp _).trans hfile, ?_⟩
      refine FileSystem.get_eq_some_iff.mpr ⟨out, htmp, ?_⟩
      rw [inodes_writeAt hlen, hcopied]
      rfl
    | beforeRename =>
      obtain ⟨-, htmp⟩ := h
      obtain ⟨out, hdir, -⟩ := FileSystem.get_eq_some_iff.mp htmp
      simp only [updaterStep,
        FileSystem.rename_of_some hdir (show UpdaterPath.tmp ≠ .prices by decide),
        Option.some.injEq, Prod.mk.injEq] at hs
      obtain ⟨rfl, rfl⟩ := hs
      exact ⟨rfl, (FileSystem.get_move (by decide)).trans htmp⟩
    | appending i => cases hs
    | done success => cases hs
  | remove city =>
    cases pc with
    | start =>
      obtain ⟨inp, hdir, -⟩ := FileSystem.get_eq_some_iff.mp h
      simp only [updaterStep, FileSystem.openAppend_of_some hdir, Option.some.injEq,
        Prod.mk.injEq] at hs
      obtain ⟨rfl, rfl⟩ := hs
      exact h
    | appending i =>
      obtain ⟨rfl, rfl⟩ := Prod.mk.inj (Option.some.inj hs)
      have hdir := hfresh city i rfl rfl
      obtain ⟨j, hdir', hinode⟩ := FileSystem.get_eq_some_iff.mp h
      obtain rfl : j = i := Option.some.inj (hdir'.symm.trans hdir)
      refine ⟨rfl, ?_⟩
      rw [FileSystem.append, FileSystem.get_setInode hdir, hinode]
      rfl
    | _ => cases hs

/-- The content of the prices file while a command runs alone. -/
lemma Progress.get_prices (h : Progress file fs cmd pc) :
    pc = .done true ∧ fs.get .prices = some (cmd.run file) ∨
      (pc.Untouched ∨ pc.InAdd) ∧ fs.get .prices = some file := by
  cases cmd <;> cases pc <;>
    simp only [Progress, UpdaterPc.Untouched, UpdaterPc.InAdd, or_true, true_or, true_and]
      at h ⊢ <;>
    simp_all

/-- A marker that comes to the prices file before `add` has read it to the end is copied with it. -/
lemma Progress.append (h : Progress file fs cmd pc) (hadd : pc.InAdd) (hend : pc.pastEnd = false)
    {i : ℕ} (hdir : fs.dir .prices = some i) (bytes : Bytes) :
    Progress (file ++ bytes) (fs.append i bytes) cmd pc := by
  have hother : ∀ {out}, fs.dir .tmp = some out → out ≠ i := by
    rintro out htmp rfl
    exact absurd (fs.dir_inj _ _ _ htmp hdir) (by decide)
  have hinodes : ∀ {out}, fs.dir .tmp = some out →
      (fs.append i bytes).inodes out = fs.inodes out := by
    intro out htmp
    simp [FileSystem.append, FileSystem.setInode, hother htmp]
  have hget : fs.get .prices = some file →
      (fs.append i bytes).get .prices = some (file ++ bytes) := by
    intro hfile
    obtain ⟨j, hdir', hinode⟩ := FileSystem.get_eq_some_iff.mp hfile
    obtain rfl : j = i := Option.some.inj (hdir'.symm.trans hdir)
    rw [FileSystem.append, FileSystem.get_setInode hdir, hinode]
  cases cmd with
  | add city price =>
    cases pc with
    | opened out =>
      obtain ⟨hfile, htmp, hempty⟩ := h
      exact ⟨hget hfile, htmp, (hinodes htmp).trans hempty⟩
    | copyLoop out wpos inp rpos eof =>
      obtain ⟨hfile, hinp, htmp, hlen, hcopied⟩ := h
      obtain rfl : eof = false := hend
      refine ⟨hget hfile, hinp, htmp, by rw [hinodes htmp, hlen], ?_⟩
      rw [hinodes htmp]
      exact hcopied.append bytes
    | copying out wpos inp rpos eof piece =>
      obtain ⟨hfile, hinp, htmp, hlen, hcopied⟩ := h
      obtain rfl : eof = false := hend
      refine ⟨hget hfile, hinp, htmp, by rw [hinodes htmp, hlen], ?_⟩
      rw [hinodes htmp]
      exact hcopied.append bytes
    | newEntry out wpos => cases hend
    | beforeRename => cases hend
    | _ => exact absurd hadd id
  | remove city => cases pc <;> first | exact absurd hadd id | exact absurd h id

end Alone

/-! ## Two commands -/

/-- The files and the two processes. -/
structure UpdaterRace where
  fs : FileSystem UpdaterPath
  first : UpdaterPc
  second : UpdaterPc

/-- One of the two processes. -/
inductive Updater where
  | first
  | second
deriving DecidableEq

section Race

variable (a b : Command)

/-- A file operation of one of the processes. -/
def updatersStep (s : UpdaterRace) : Updater → Option UpdaterRace
  | .first => (updaterStep a s.fs s.first).map fun p => { s with fs := p.1, first := p.2 }
  | .second => (updaterStep b s.fs s.second).map fun p => { s with fs := p.1, second := p.2 }

/-- A `remove` that is about to write its marker has the file open that is at the path, and no `add`
is between the end of the prices file and its `rename`. -/
def MarkerSeen (cmd : Command) (fs : FileSystem UpdaterPath) (pc other : UpdaterPc) : Prop :=
  match cmd, pc with
  | .remove _, .appending i => fs.dir .prices = some i ∧ other.pastEnd = false
  | _, _ => True

instance (cmd : Command) (fs : FileSystem UpdaterPath) (pc other : UpdaterPc) :
    Decidable (MarkerSeen cmd fs pc other) := by
  unfold MarkerSeen
  split <;> infer_instance

/-- The side condition of the runs in which no marker is lost. -/
def MarkersSeen (s : UpdaterRace) : Updater → Prop
  | .first => MarkerSeen a s.fs s.first s.second
  | .second => MarkerSeen b s.fs s.second s.first

instance (s : UpdaterRace) (e : Updater) : Decidable (MarkersSeen a b s e) := by
  cases e <;> unfold MarkersSeen <;> infer_instance

/-- Two `add` commands overlap, and at most one of them is going to succeed. -/
def Overlap (fs : FileSystem UpdaterPath) (pc pc' : UpdaterPc) : Prop :=
  pc.InAdd ∧ pc'.InAdd ∨ pc.InAdd ∧ pc' = .done true ∧ fs.dir .tmp = none ∨
    pc = .done true ∧ pc'.InAdd ∧ fs.dir .tmp = none ∨ pc = .done false ∨ pc' = .done false

/-- One of the commands has not yet changed a file, or has run before the other one began, or the
two overlap. -/
def Serial (file : Bytes) (fs : FileSystem UpdaterPath) (a : Command) (pa : UpdaterPc) (b : Command)
    (pb : UpdaterPc) : Prop :=
  pb.Untouched ∧ Progress file fs a pa ∨ pa.Untouched ∧ Progress file fs b pb ∨
    pb = .done true ∧ Progress (b.run file) fs a pa ∨
    pa = .done true ∧ Progress (a.run file) fs b pb ∨ Overlap fs pa pb

variable {a b} {file : Bytes} {fs fs' : FileSystem UpdaterPath} {pa pa' pb : UpdaterPc}

lemma Overlap.symm (h : Overlap fs pa pb) : Overlap fs pb pa := by
  unfold Overlap at h ⊢
  tauto

lemma Serial.symm (h : Serial file fs a pa b pb) : Serial file fs b pb a pa := by
  rcases h with h | h | h | h | h
  · exact .inr (.inl h)
  · exact .inl h
  · exact .inr (.inr (.inr (.inl h)))
  · exact .inr (.inr (.inl h))
  · exact .inr (.inr (.inr (.inr h.symm)))

/-- What a step inside `add` does to the directory. -/
lemma updaterStep_inAdd (hadd : pa.InAdd) (hs : updaterStep a fs pa = some (fs', pa')) :
    pa'.InAdd ∧ fs'.dir = fs.dir ∨ pa' = .done true ∧ fs.dir .tmp ≠ none ∧ fs'.dir .tmp = none ∨
      pa' = .done false := by
  cases a with
  | add city price =>
    cases pa with
    | opened out =>
      cases hdir : fs.dir .prices <;> simp only [updaterStep, hdir] at hs <;>
        obtain ⟨rfl, rfl⟩ := Prod.mk.inj (Option.some.inj hs) <;> exact .inl ⟨trivial, rfl⟩
    | copyLoop out wpos inp rpos eof =>
      cases eof with
      | true =>
        obtain ⟨rfl, rfl⟩ := Prod.mk.inj (Option.some.inj hs)
        exact .inl ⟨trivial, rfl⟩
      | false =>
        simp only [updaterStep, Bool.false_eq_true, if_false] at hs
        cases hcall : fgets maxLine ((fs.inodes inp).drop rpos) <;> rw [hcall] at hs <;>
          obtain ⟨rfl, rfl⟩ := Prod.mk.inj (Option.some.inj hs) <;> exact .inl ⟨trivial, rfl⟩
    | copying out wpos inp rpos eof piece =>
      obtain ⟨rfl, rfl⟩ := Prod.mk.inj (Option.some.inj hs)
      exact .inl ⟨trivial, rfl⟩
    | newEntry out wpos =>
      obtain ⟨rfl, rfl⟩ := Prod.mk.inj (Option.some.inj hs)
      exact .inl ⟨trivial, rfl⟩
    | beforeRename =>
      cases hdir : fs.dir .tmp with
      | none =>
        simp only [updaterStep, FileSystem.rename_eq_none hdir] at hs
        obtain ⟨rfl, rfl⟩ := Prod.mk.inj (Option.some.inj hs)
        exact .inr (.inr rfl)
      | some out =>
        simp only [updaterStep,
          FileSystem.rename_of_some hdir (show UpdaterPath.tmp ≠ .prices by decide)] at hs
        obtain ⟨rfl, rfl⟩ := Prod.mk.inj (Option.some.inj hs)
        exact .inr (.inl ⟨rfl, by simp, FileSystem.dir_move_self⟩)
    | _ => exact absurd hadd id
  | remove city => cases pa <;> first | exact absurd hadd id | cases hs

/-- A command that has returned takes no step. -/
lemma updaterStep_done (a : Command) (fs : FileSystem UpdaterPath) (success : Bool) :
    updaterStep a fs (.done success) = none := by
  cases a <;> rfl

/-- Of two overlapping commands at most one succeeds. -/
lemma Overlap.step (h : Overlap fs pa pb) (hs : updaterStep a fs pa = some (fs', pa')) :
    Overlap fs' pa' pb := by
  rcases h with ⟨hpa, hpb⟩ | ⟨hpa, hpb, htmp⟩ | ⟨rfl, -⟩ | rfl | hpb
  · rcases updaterStep_inAdd hpa hs with ⟨hpa', -⟩ | ⟨rfl, -, htmp⟩ | rfl
    · exact .inl ⟨hpa', hpb⟩
    · exact .inr (.inr (.inl ⟨rfl, hpb, htmp⟩))
    · exact .inr (.inr (.inr (.inl rfl)))
  · rcases updaterStep_inAdd hpa hs with ⟨hpa', hdir⟩ | ⟨-, hsome, -⟩ | rfl
    · exact .inr (.inl ⟨hpa', hpb, hdir ▸ htmp⟩)
    · exact absurd htmp hsome
    · exact .inr (.inr (.inr (.inl rfl)))
  · rw [updaterStep_done] at hs
    cases hs
  · rw [updaterStep_done] at hs
    cases hs
  · exact .inr (.inr (.inr (.inr hpb)))

/-- The marker comes to the file that is at the path. -/
lemma MarkerSeen.dir_eq (h : MarkerSeen a fs pa pb) (city : Bytes) (i : ℕ)
    (ha : a = .remove city) (hpa : pa = .appending i) : fs.dir .prices = some i := by
  subst ha hpa
  exact h.1

/-- The step of a process that has changed no file yet, while the other one may be under way. -/
lemma Serial.step_untouched (hpa : pa.Untouched) (h : Progress file fs b pb)
    (hseen : MarkerSeen a fs pa pb) (hs : updaterStep a fs pa = some (fs', pa')) :
    Serial file fs' a pa' b pb := by
  have hadd : ∀ city price, a = .add city price → pa = .start := by
    rintro city price rfl
    cases pa <;> first | rfl | exact absurd hpa id | cases hs
  -- before its first change a command is as far as it would be alone
  have hstart : ∀ {content : Bytes}, fs.get .prices = some content → Progress content fs a pa := by
    intro content hcontent
    cases a with
    | add city price =>
      obtain rfl := hadd city price rfl
      exact hcontent
    | remove city => cases pa <;> first | exact hcontent | exact absurd hpa id
  rcases h.get_prices with ⟨hdone, hget⟩ | ⟨hpb | hpb, hget⟩
  · exact .inr (.inr (.inl ⟨hdone, (hstart hget).step hseen.dir_eq hs⟩))
  · exact .inl ⟨hpb, (hstart hget).step hseen.dir_eq hs⟩
  · cases a with
    | add city price =>
      obtain rfl := hadd city price rfl
      simp only [updaterStep, Option.some.injEq, Prod.mk.injEq] at hs
      obtain ⟨-, rfl⟩ := hs
      exact .inr (.inr (.inr (.inr (.inl ⟨trivial, hpb⟩))))
    | remove city =>
      cases pa with
      | start =>
        obtain ⟨inp, hdir, -⟩ := FileSystem.get_eq_some_iff.mp hget
        simp only [updaterStep, FileSystem.openAppend_of_some hdir, Option.some.injEq,
          Prod.mk.injEq] at hs
        obtain ⟨rfl, rfl⟩ := hs
        exact .inr (.inl ⟨trivial, h⟩)
      | appending i =>
        obtain ⟨hdir, hend⟩ : fs.dir .prices = some i ∧ pb.pastEnd = false := hseen
        obtain ⟨rfl, rfl⟩ := Prod.mk.inj (Option.some.inj hs)
        exact .inr (.inr (.inr (.inl ⟨rfl, h.append hpb hend hdir _⟩)))
      | _ => exact absurd hpa id

/-- A step of one process. -/
lemma Serial.step (h : Serial file fs a pa b pb) (hseen : MarkerSeen a fs pa pb)
    (hs : updaterStep a fs pa = some (fs', pa')) : Serial file fs' a pa' b pb := by
  rcases h with ⟨hpb, h⟩ | ⟨hpa, h⟩ | ⟨hpb, h⟩ | ⟨rfl, -⟩ | h
  · exact .inl ⟨hpb, h.step hseen.dir_eq hs⟩
  · exact .step_untouched hpa h hseen hs
  · exact .inr (.inr (.inl ⟨hpb, h.step hseen.dir_eq hs⟩))
  · rw [updaterStep_done] at hs
    cases hs
  · exact .inr (.inr (.inr (.inr (h.step hs))))

/-- The invariant of the two processes. -/
def SerialInv (a b : Command) (file : Bytes) (s : UpdaterRace) : Prop :=
  Serial file s.fs a s.first b s.second

/-- Both processes keep the invariant. -/
lemma SerialInv.step {s s' : UpdaterRace} {e : Updater} (h : SerialInv a b file s)
    (hok : MarkersSeen a b s e) (hs : updatersStep a b s e = some s') : SerialInv a b file s' := by
  cases e with
  | first =>
    obtain ⟨p, hp, rfl⟩ := Option.map_eq_some_iff.mp hs
    exact Serial.step h hok hp
  | second =>
    obtain ⟨p, hp, rfl⟩ := Option.map_eq_some_iff.mp hs
    exact (h.symm.step hok hp).symm

/-- **Two updaters, one after the other.**  If both commands report success and every marker comes
to the file at the path before an `add` has read this file to its end, then the prices file is what
the two commands make of it in one of the two orders. -/
theorem updaters_serial (hfile : fs.get .prices = some file) {es : List Updater} {s : UpdaterRace}
    (h : Trace (updatersStep a b) (MarkersSeen a b) ⟨fs, .start, .start⟩ es s)
    (hfirst : s.first = .done true) (hsecond : s.second = .done true) :
    s.fs.get .prices = some (b.run (a.run file)) ∨
      s.fs.get .prices = some (a.run (b.run file)) := by
  have hinv : SerialInv a b file s :=
    h.invariant (.inl ⟨trivial, by cases a <;> exact hfile⟩) fun _ _ _ hi hok hs => hi.step hok hs
  unfold SerialInv at hinv
  rw [hfirst, hsecond] at hinv
  rcases hinv with ⟨h, -⟩ | ⟨h, -⟩ | ⟨-, h⟩ | ⟨-, h⟩ | h
  · exact absurd h id
  · exact absurd h id
  · right
    cases a <;> exact h.2
  · left
    cases b <;> exact h.2
  · rcases h with ⟨h, -⟩ | ⟨h, -⟩ | ⟨-, h, -⟩ | h | h
    · exact absurd h id
    · exact absurd h id
    · exact absurd h id
    · cases h
    · cases h

end Race

/-! ## A marker that is lost -/

/-- A prices file without anything else. -/
def pricesOnly (file : Bytes) : FileSystem UpdaterPath :=
  (FileSystem.empty.create .prices).append 0 file

/-- A run of `add TelAviv 0.5` and `remove Haifa` on a file with Haifa. -/
def haifaRace (ok : UpdaterRace → Updater → Prop) [∀ s e, Decidable (ok s e)] (es : List Updater) :
    Option UpdaterRace :=
  replayEvents (updatersStep (.add (ascii "TelAviv") (1 / 2)) (.remove (ascii "Haifa"))) ok
    ⟨pricesOnly (ascii "Haifa,0.3\n"), .start, .start⟩ es

/-- A marker that comes to the file while it is copied is copied with it. -/
theorem updaters_serial_haifa :
    ∃ s : UpdaterRace, s.fs.get .prices = some (ascii "Haifa,0.3\n-Haifa\nTelAviv,0.500000\n") ∧
      (s.fs.get .prices = some (cmdRemove (ascii "Haifa")
          (cmdAdd (ascii "TelAviv") (1 / 2) (ascii "Haifa,0.3\n"))) ∨
        s.fs.get .prices = some (cmdAdd (ascii "TelAviv") (1 / 2)
          (cmdRemove (ascii "Haifa") (ascii "Haifa,0.3\n")))) := by
  have hrun : ∃ s, haifaRace
      (MarkersSeen (.add (ascii "TelAviv") (1 / 2)) (.remove (ascii "Haifa")))
      [.first, .first, .second, .first, .first, .second, .first, .first, .first, .first, .first] =
        some s ∧
      (s.first, s.second, s.fs.get .prices) =
        (.done true, .done true, some (ascii "Haifa,0.3\n-Haifa\nTelAviv,0.500000\n")) := by
    rw [← Option.map_eq_some_iff]
    decide +kernel
  obtain ⟨s, hs, hend⟩ := hrun
  simp only [Prod.mk.injEq] at hend
  exact ⟨s, hend.2.2, updaters_serial (show (pricesOnly (ascii "Haifa,0.3\n")).get .prices =
    some (ascii "Haifa,0.3\n") by decide +kernel) (.of_replayEvents hs) hend.1 hend.2.1⟩

/-- A marker that comes to the file between its end and the `rename` is lost, although both commands
report success. -/
theorem not_every_run_serial :
    ¬ ∀ (a b : Command) (fs : FileSystem UpdaterPath) (file : Bytes) (es : List Updater)
      (s : UpdaterRace), fs.get .prices = some file →
      Trace (updatersStep a b) (fun _ _ => True) ⟨fs, .start, .start⟩ es s →
      s.first = .done true → s.second = .done true →
      s.fs.get .prices = some (b.run (a.run file)) ∨
        s.fs.get .prices = some (a.run (b.run file)) := by
  intro h
  have hrun : ∃ s, haifaRace (fun _ _ => True)
      [.first, .first, .first, .first, .second, .first, .second, .first, .first] = some s ∧
      (s.first, s.second, s.fs.get .prices) =
        (.done true, .done true, some (ascii "Haifa,0.3\nTelAviv,0.500000\n")) := by
    rw [← Option.map_eq_some_iff]
    decide +kernel
  obtain ⟨s, hs, hend⟩ := hrun
  simp only [Prod.mk.injEq] at hend
  have hserial := h _ _ _ (ascii "Haifa,0.3\n") _ s (by decide +kernel) (.of_replayEvents hs) hend.1
    hend.2.1
  rw [hend.2.2] at hserial
  revert hserial
  decide +kernel

end ParkingSystem
