import ParkingSystem.Foundation.Text

/-!
# A file system with open files

A directory maps paths to inodes, and an open file is an inode and a position in it.  So a file
stays open when its path is renamed or gets another inode: `rename` changes the directory only, and
writes change the inode only.  There are no hard links, and unused inode numbers are counted up;
both are fields of the structure.  `keptBytes` is what comes through of a text when writes fail.
-/

namespace Foundation

/-- A directory of inodes. -/
structure FileSystem (π : Type*) where
  inodes : ℕ → Bytes
  /-- The inode at each path. -/
  dir : π → Option ℕ
  /-- The first inode that has never been used. -/
  next : ℕ
  dir_lt : ∀ p i, dir p = some i → i < next
  /-- Two paths do not share an inode. -/
  dir_inj : ∀ p q i, dir p = some i → dir q = some i → p = q

/-- Write bytes at a position; a gap behind the end of the file is filled with zeros. -/
def overlay (content : Bytes) (pos : ℕ) (bytes : Bytes) : Bytes :=
  if bytes = [] then content
  else content.take pos ++ List.replicate (pos - content.length) 0 ++ bytes ++
    content.drop (pos + bytes.length)

/-- Writing at the end appends. -/
@[simp] lemma overlay_length (content bytes : Bytes) :
    overlay content content.length bytes = content ++ bytes := by
  unfold overlay
  split_ifs with h
  · simp [h]
  · simp [List.drop_of_length_le]

/-! ## Writes that may fail -/

/-- The bytes that come through of a text that is written, when `lost n` says that byte number `n`
is lost. -/
def keptBytes (lost : ℕ → Bool) (text : Bytes) : Bytes :=
  (text.zipIdx.filter fun p => !lost p.2).map Prod.fst

/-- What comes through is in the order in which it was written. -/
lemma keptBytes_sublist (lost : ℕ → Bool) (text : Bytes) :
    (keptBytes lost text).Sublist text := by
  have hsub : (text.zipIdx.filter fun p => !lost p.2).Sublist text.zipIdx := List.filter_sublist
  have hfst := hsub.map Prod.fst
  rwa [List.zipIdx_map_fst] at hfst

/-- As many bytes come through as are written exactly when none is lost. -/
lemma length_keptBytes_eq_iff {lost : ℕ → Bool} {text : Bytes} :
    (keptBytes lost text).length = text.length ↔ ∀ n < text.length, lost n = false := by
  have hlen : text.length = text.zipIdx.length := List.length_zipIdx.symm
  rw [keptBytes, List.length_map]
  nth_rewrite 1 [hlen]
  rw [List.length_filter_eq_length_iff]
  constructor
  · intro h n hn
    have hmem : (text[n], n) ∈ text.zipIdx :=
      List.mk_mem_zipIdx_iff_getElem?.mpr (List.getElem?_eq_getElem hn)
    simpa using h _ hmem
  · rintro h ⟨b, n⟩ hmem
    have hn := (List.getElem?_eq_some_iff.mp (List.mk_mem_zipIdx_iff_getElem?.mp hmem)).1
    simp [h n hn]

/-- A text of which no byte is lost comes through as a whole. -/
lemma keptBytes_eq_self {lost : ℕ → Bool} {text : Bytes}
    (h : ∀ n < text.length, lost n = false) : keptBytes lost text = text :=
  (keptBytes_sublist lost text).eq_of_length (length_keptBytes_eq_iff.mpr h)

namespace FileSystem

variable {π : Type*} (fs : FileSystem π)

/-- The file system without files. -/
def empty : FileSystem π where
  inodes _ := []
  dir _ := none
  next := 0
  dir_lt _ _ h := by cases h
  dir_inj _ _ _ h := by cases h

/-- The content of the file at a path. -/
def get (p : π) : Option Bytes := (fs.dir p).map fs.inodes

/-- Replace the content of an inode. -/
def setInode (i : ℕ) (content : Bytes) : FileSystem π :=
  { fs with inodes := Function.update fs.inodes i content }

section Paths

variable {fs} {p : π} {i : ℕ}

lemma get_eq_some_iff {content : Bytes} :
    fs.get p = some content ↔ ∃ i, fs.dir p = some i ∧ fs.inodes i = content :=
  Option.map_eq_some_iff

/-- A changed inode is seen at its path. -/
lemma get_setInode (h : fs.dir p = some i) (content : Bytes) :
    (fs.setInode i content).get p = some content := by
  simp [get, setInode, h]

/-- A changed inode is not seen at other paths. -/
lemma get_setInode_of_ne (h : fs.dir p ≠ some i) (content : Bytes) :
    (fs.setInode i content).get p = fs.get p := by
  unfold get setInode
  cases hp : fs.dir p with
  | none => rfl
  | some j =>
    have hij : j ≠ i := by
      rintro rfl
      exact h hp
    simp [hij]

end Paths

section Operations

variable [DecidableEq π]

/-- What is found in a directory with one changed entry. -/
lemma update_eq_some {dir : π → Option ℕ} {p q : π} {entry : Option ℕ} {i : ℕ}
    (h : Function.update dir p entry q = some i) :
    q = p ∧ entry = some i ∨ q ≠ p ∧ dir q = some i := by
  by_cases hq : q = p
  · subst hq
    rw [Function.update_self] at h
    exact .inl ⟨rfl, h⟩
  · rw [Function.update_of_ne hq] at h
    exact .inr ⟨hq, h⟩

/-- Put a new empty file at a path. -/
def create (p : π) : FileSystem π where
  inodes := Function.update fs.inodes fs.next []
  dir := Function.update fs.dir p (some fs.next)
  next := fs.next + 1
  dir_lt := by
    intro q i h
    rcases update_eq_some h with ⟨-, hi⟩ | ⟨-, hi⟩
    · exact (Option.some.inj hi) ▸ Nat.lt_succ_self _
    · exact (fs.dir_lt q i hi).trans (Nat.lt_succ_self _)
  dir_inj := by
    intro q r i hq hr
    rcases update_eq_some hq with ⟨hqp, hi⟩ | ⟨-, hi⟩ <;>
      rcases update_eq_some hr with ⟨hrp, hi'⟩ | ⟨-, hi'⟩
    · rw [hqp, hrp]
    · exact absurd (fs.dir_lt r i hi') (by rw [Option.some.inj hi]; exact lt_irrefl i)
    · exact absurd (fs.dir_lt q i hi) (by rw [Option.some.inj hi']; exact lt_irrefl i)
    · exact fs.dir_inj q r i hi hi'

/-- `fopen(p, "w")`: the file is created, or truncated when it exists. -/
def openWrite (p : π) : ℕ × FileSystem π :=
  match fs.dir p with
  | some i => (i, fs.setInode i [])
  | none => (fs.next, fs.create p)

/-- `fopen(p, "a")`: the file is created if it does not exist. -/
def openAppend (p : π) : ℕ × FileSystem π :=
  match fs.dir p with
  | some i => (i, fs)
  | none => (fs.next, fs.create p)

/-- Write to an open file at a position. -/
def writeAt (i pos : ℕ) (bytes : Bytes) : FileSystem π :=
  fs.setInode i (overlay (fs.inodes i) pos bytes)

/-- Write to a file that is open for appending. -/
def append (i : ℕ) (bytes : Bytes) : FileSystem π := fs.setInode i (fs.inodes i ++ bytes)

/-- Move the file at a path to another path. -/
def move (p q : π) : FileSystem π :=
  { fs with
    dir := Function.update (Function.update fs.dir q (fs.dir p)) p none
    dir_lt := by
      intro r i h
      rcases update_eq_some h with ⟨-, hi⟩ | ⟨-, h⟩
      · cases hi
      rcases update_eq_some h with ⟨-, hi⟩ | ⟨-, hi⟩
      · exact fs.dir_lt p i hi
      · exact fs.dir_lt r i hi
    dir_inj := by
      intro r r' i h h'
      rcases update_eq_some h with ⟨-, hi⟩ | ⟨hr, h⟩
      · cases hi
      rcases update_eq_some h' with ⟨-, hi⟩ | ⟨hr', h'⟩
      · cases hi
      rcases update_eq_some h with ⟨hrq, hi⟩ | ⟨-, hi⟩ <;>
        rcases update_eq_some h' with ⟨hrq', hi'⟩ | ⟨-, hi'⟩
      · rw [hrq, hrq']
      · exact absurd (fs.dir_inj p r' i hi hi') (Ne.symm hr')
      · exact absurd (fs.dir_inj p r i hi' hi) (Ne.symm hr)
      · exact fs.dir_inj r r' i hi hi' }

/-- `rename(p, q)`: it fails when there is no file at `p`. -/
def rename (p q : π) : Option (FileSystem π) :=
  if fs.dir p = none then none
  else if p = q then some fs
  else some (fs.move p q)

variable {fs} {p q : π} {i : ℕ}

/-- A file that is opened for writing is at its path and empty. -/
lemma dir_openWrite : (fs.openWrite p).2.dir p = some (fs.openWrite p).1 := by
  unfold openWrite
  cases hp : fs.dir p with
  | none => simp [create]
  | some i => exact hp

lemma inodes_openWrite : (fs.openWrite p).2.inodes (fs.openWrite p).1 = [] := by
  unfold openWrite
  cases hp : fs.dir p with
  | none => simp [create]
  | some i => simp [setInode]

/-- Opening a file for writing does not change the files at other paths. -/
lemma get_openWrite_of_ne (h : q ≠ p) : (fs.openWrite p).2.get q = fs.get q := by
  unfold openWrite
  cases hp : fs.dir p with
  | none =>
    have hdir : (fs.create p).dir q = fs.dir q := Function.update_of_ne h _ _
    unfold get
    rw [hdir]
    cases hq : fs.dir q with
    | none => rfl
    | some j =>
      have hj : j ≠ fs.next := (fs.dir_lt q j hq).ne
      simp [create, hj]
  | some i =>
    apply get_setInode_of_ne
    intro hq
    exact h (fs.dir_inj q p i hq hp)

/-- A file that exists is opened for appending as it is. -/
lemma openAppend_of_some (h : fs.dir p = some i) : fs.openAppend p = (i, fs) := by
  simp [openAppend, h]

lemma rename_eq_none (h : fs.dir p = none) : fs.rename p q = none := by
  simp [rename, h]

/-- A file that exists is moved. -/
lemma rename_of_some (h : fs.dir p = some i) (hpq : p ≠ q) :
    fs.rename p q = some (fs.move p q) := by
  simp [rename, h, hpq]

@[simp] lemma dir_move_self : (fs.move p q).dir p = none :=
  Function.update_self ..

/-- The file is found at its new path. -/
lemma get_move (hpq : p ≠ q) : (fs.move p q).get q = fs.get p := by
  simp [get, move, Function.update_of_ne hpq.symm]

end Operations

end FileSystem

end Foundation
