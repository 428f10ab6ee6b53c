import ParkingSystem.Foundation.CellCopy
import ParkingSystem.System.RecordRing

/-!
# The ring of records, cell by cell

A record is too large for one access to memory.  In this module `records[idx] = rec` and
`rec = records[idx]` copy it cell by cell, in any order of the cells, and the accesses of the two
processes interleave freely, as the two locks are different objects.

While the poller keeps up, these runs are runs of the ring that is written and read by whole
records: the slot being written is never the one being read.  One lap behind is too much: then any
mixture of an old and a new record may be inserted.
-/

namespace ParkingSystem

open Foundation

section Cells

variable {ι β : Type*}

/-- The index of a slot. -/
abbrev SlotIndex : Type := Fin shmMaxRecords

/-- The slot of the record with an absolute number. -/
def slotIdx (n : ℕ) : SlotIndex := ⟨n % shmMaxRecords, Nat.mod_lt _ (by norm_num)⟩

/-- Records that are less than a lap apart have different slots. -/
lemma slotIdx_ne {k n : ℕ} (hk : k < n) (hlt : n - k < shmMaxRecords) : slotIdx k ≠ slotIdx n :=
  fun h => mod_ne_mod hk hlt (Fin.mk.inj h)

/-- The ring, seen as whole records. -/
def RecordArea.ofSlots (count : ℕ) (slots : SlotIndex → ParkingRecord) : RecordArea where
  recordCount := count
  records := List.ofFn slots
  length_records := List.length_ofFn

/-- The counter of an area given by its slots. -/
@[simp] lemma RecordArea.recordCount_ofSlots (count : ℕ) (slots : SlotIndex → ParkingRecord) :
    (RecordArea.ofSlots count slots).recordCount = count := rfl

/-- The slots of an area given by them. -/
@[simp] lemma RecordArea.slot_ofSlots (count : ℕ) (slots : SlotIndex → ParkingRecord) (n : ℕ) :
    (RecordArea.ofSlots count slots).slot n = slots (slotIdx n) := by
  simp only [RecordArea.slot, RecordArea.ofSlots, List.get_ofFn]
  rfl

/-- Incrementing touches the counter only. -/
lemma RecordArea.increment_ofSlots (count : ℕ) (slots : SlotIndex → ParkingRecord) :
    (RecordArea.ofSlots count slots).increment = .ofSlots (count + 1) slots := by
  simp only [RecordArea.increment, RecordArea.ofSlots]

/-- Writing touches one slot only. -/
lemma RecordArea.write_ofSlots (count : ℕ) (slots : SlotIndex → ParkingRecord) (n : ℕ)
    (rec : ParkingRecord) :
    (RecordArea.ofSlots count slots).write (slotIdx n) rec =
      .ofSlots count (Function.update slots (slotIdx n) rec) := by
  simp only [RecordArea.write, RecordArea.ofSlots, RecordArea.mk.injEq, true_and]
  apply List.ext_getElem (by rw [List.length_set, List.length_ofFn, List.length_ofFn])
  intro i hi hi'
  rw [List.getElem_set, List.getElem_ofFn, List.getElem_ofFn, Function.update_apply]
  simp only [Fin.ext_iff, eq_comm]

/-- Where the server is in `storeRecord`. -/
inductive CellStorePc (ι : Type*) where
  /-- Outside. -/
  | idle
  /-- The index is computed. -/
  | entered (rec : ParkingRecord) (idx : SlotIndex)
  /-- In the assignment to the slot, with the cells that are still to be written. -/
  | writing (rec : ParkingRecord) (idx : SlotIndex) (left : Finset ι)

/-- Where the database process is in `poll`. -/
inductive CellPollPc (ι β : Type*) where
  /-- Outside. -/
  | idle
  /-- At the head of the loop, with the snapshot of `record_count`. -/
  | loop (current : ℕ)
  /-- In the copy of the slot to the local `rec`, with the cells that are still to be read. -/
  | reading (current : ℕ) (left : Finset ι) (rec : ι → β)
  /-- The copy is inserted or passed over. -/
  | handled (current : ℕ)

/-- The shared ring as cells, the two processes and the database, with the same record of what has
happened as in `RingSys`. -/
structure CellSys (ι β : Type*) where
  recordCount : ℕ
  cells : SlotIndex → ι → β
  store : CellStorePc ι
  /-- `lastSeen_`. -/
  lastSeen : ℕ
  poll : CellPollPc ι β
  db : Database
  stored : List ParkingRecord
  inserted : List ℕ
  polled : List ℕ

/-- A step of the server or of the database process. -/
inductive CellEvent (ι β : Type*) where
  /-- `storeRecord` is called and computes the index of its slot. -/
  | storeRecord (rec : ParkingRecord)
  /-- The assignment to the slot begins. -/
  | beginWrite
  /-- One cell of the slot is written. -/
  | writeCell (i : ι)
  /-- `record_count++`, and the return from `storeRecord`. -/
  | increment
  /-- `poll` is called and reads `record_count`. -/
  | snapshot
  /-- The body of the loop is entered, where `rec` holds what lies on the stack. -/
  | beginRead (stack : ι → β)
  /-- One cell of the slot is read. -/
  | readCell (i : ι)
  /-- `insertRecord`, if the record is complete. -/
  | insert
  /-- `++lastSeen_`. -/
  | advance
  /-- The loop ends and `poll` returns. -/
  | pollReturn

variable (L : Layout ParkingRecord ι β)

/-- The effect of a step, if the process can take it. -/
def cellStep [DecidableEq ι] [Fintype ι] (s : CellSys ι β) : CellEvent ι β → Option (CellSys ι β)
  | .storeRecord rec => match s.store with
    | .idle => some { s with store := .entered rec (slotIdx s.recordCount) }
    | _ => none
  | .beginWrite => match s.store with
    | .entered rec idx => some { s with store := .writing rec idx Finset.univ }
    | _ => none
  | .writeCell i => match s.store with
    | .writing rec idx left =>
      if i ∈ left then
        some { s with
          cells := Function.update s.cells idx
            (Function.update (s.cells idx) i (L.encode rec i))
          store := .writing rec idx (left.erase i) }
      else none
    | _ => none
  | .increment => match s.store with
    | .writing rec _ left =>
      if left = ∅ ∧ s.recordCount + 1 < 2 ^ 31 then
        some { s with
          recordCount := s.recordCount + 1
          store := .idle
          stored := s.stored ++ [rec] }
      else none
    | _ => none
  | .snapshot => match s.poll with
    | .idle => some { s with poll := .loop s.recordCount }
    | _ => none
  | .beginRead stack => match s.poll with
    | .loop current =>
      if s.lastSeen < current then some { s with poll := .reading current Finset.univ stack }
      else none
    | _ => none
  | .readCell i => match s.poll with
    | .reading current left rec =>
      if i ∈ left then
        some { s with
          poll := .reading current (left.erase i)
            (Function.update rec i (s.cells (slotIdx s.lastSeen) i)) }
      else none
    | _ => none
  | .insert => match s.poll with
    | .reading current left rec =>
      if left = ∅ then
        if (L.decode rec).complete then
          some { s with
            poll := .handled current
            db := s.db.insertRecord (L.decode rec)
            inserted := s.inserted ++ [s.lastSeen] }
        else some { s with poll := .handled current }
      else none
    | _ => none
  | .advance => match s.poll with
    | .handled current => some { s with poll := .loop current, lastSeen := s.lastSeen + 1 }
    | _ => none
  | .pollReturn => match s.poll with
    | .loop current =>
      if s.lastSeen < current then none
      else some { s with poll := .idle, polled := s.polled ++ [current] }
    | _ => none

/-- Both processes have just started on an empty ring, whatever its slots contain. -/
def CellSys.init (cells : SlotIndex → ι → β) (db : Database) : CellSys ι β where
  recordCount := 0
  cells := cells
  store := .idle
  lastSeen := 0
  poll := .idle
  db := db
  stored := []
  inserted := []
  polled := []

/-- The caller of `storeRecord` hands over a complete record, and fewer than `lag` records wait for
the poller when a slot begins to be written. -/
def StaysWithin (lag : ℕ) (s : CellSys ι β) : CellEvent ι β → Prop
  | .storeRecord rec => rec.complete = true
  | .beginWrite => s.recordCount - s.lastSeen < lag
  | _ => True

/-! ## Whole records -/

/-- The slots, with the one that is being written as if it were written already. -/
def CellStorePc.slots (cells : SlotIndex → ι → β) : CellStorePc ι → SlotIndex → ParkingRecord
  | writing rec idx _ => Function.update (fun idx => L.decode (cells idx)) idx rec
  | _ => fun idx => L.decode (cells idx)

/-- The same place in `storeRecord`, when the slot is written at once. -/
def CellStorePc.ring : CellStorePc ι → StorePc
  | idle => .idle
  | entered rec idx => .entered rec idx
  | writing rec _ _ => .written rec

/-- The same place in `poll`, when the slot is read at once. -/
def CellPollPc.ring (slot : ParkingRecord) : CellPollPc ι β → PollPc
  | idle => .idle
  | loop current => .loop current
  | reading current _ _ => .copied current slot
  | handled current => .handled current

/-- The ring that is written and read by whole records: a slot is written when its first cell is
about to be, and read before its first cell is. -/
def CellSys.ring (s : CellSys ι β) : RingSys where
  shm := .ofSlots s.recordCount (s.store.slots L s.cells)
  store := s.store.ring
  lastSeen := s.lastSeen
  poll := s.poll.ring (s.store.slots L s.cells (slotIdx s.lastSeen))
  db := s.db
  stored := s.stored
  inserted := s.inserted
  polled := s.polled

/-- The step of the ring with whole records, if there is one. -/
def CellEvent.ring : CellEvent ι β → Option RingEvent
  | .storeRecord rec => some (.storeRecord rec)
  | .beginWrite => some .writeSlot
  | .writeCell _ => none
  | .increment => some .increment
  | .snapshot => some .snapshot
  | .beginRead _ => some .readSlot
  | .readCell _ => none
  | .insert => some .insert
  | .advance => some .advance
  | .pollReturn => some .pollReturn

section Cases

variable [DecidableEq ι] [Fintype ι] {L} {s s' : CellSys ι β} {rec : ParkingRecord} {i : ι}
  {stack : ι → β}

/-- `storeRecord` may be called when it is not running, and takes the index of its slot. -/
lemma cellStep_storeRecord : cellStep L s (.storeRecord rec) = some s' ↔
    s.store = .idle ∧ s' = { s with store := .entered rec (slotIdx s.recordCount) } := by
  cases h : s.store <;> simp [cellStep, h, eq_comm]

/-- The copy into the slot begins with all cells left. -/
lemma cellStep_beginWrite : cellStep L s .beginWrite = some s' ↔
    ∃ rec idx, s.store = .entered rec idx ∧
      s' = { s with store := .writing rec idx Finset.univ } := by
  cases h : s.store <;> simp [cellStep, h, eq_comm]

/-- Any of the cells left is written. -/
lemma cellStep_writeCell : cellStep L s (.writeCell i) = some s' ↔
    ∃ rec idx left, s.store = .writing rec idx left ∧ i ∈ left ∧
      s' = { s with
        cells := Function.update s.cells idx (Function.update (s.cells idx) i (L.encode rec i))
        store := .writing rec idx (left.erase i) } := by
  cases h : s.store <;> simp [cellStep, h, eq_comm]

/-- The counter is incremented when no cell is left. -/
lemma cellStep_increment : cellStep L s .increment = some s' ↔
    ∃ rec idx, s.store = .writing rec idx ∅ ∧ s.recordCount + 1 < 2 ^ 31 ∧
      s' = { s with
        recordCount := s.recordCount + 1
        store := .idle
        stored := s.stored ++ [rec] } := by
  cases h : s.store <;> simp [cellStep, h, eq_comm, and_assoc]

/-- A poll begins with a copy of the counter. -/
lemma cellStep_snapshot : cellStep L s .snapshot = some s' ↔
    s.poll = .idle ∧ s' = { s with poll := .loop s.recordCount } := by
  cases h : s.poll <;> simp [cellStep, h, eq_comm]

/-- The copy of a slot begins with all cells left, while the poller is behind. -/
lemma cellStep_beginRead : cellStep L s (.beginRead stack) = some s' ↔
    ∃ current, s.poll = .loop current ∧ s.lastSeen < current ∧
      s' = { s with poll := .reading current Finset.univ stack } := by
  cases h : s.poll <;> simp [cellStep, h, eq_comm]

/-- Any of the cells left is read. -/
lemma cellStep_readCell : cellStep L s (.readCell i) = some s' ↔
    ∃ current left rec, s.poll = .reading current left rec ∧ i ∈ left ∧
      s' = { s with
        poll := .reading current (left.erase i)
          (Function.update rec i (s.cells (slotIdx s.lastSeen) i)) } := by
  cases h : s.poll <;> simp [cellStep, h, eq_comm]

/-- When no cell is left, a complete record is inserted, another one is skipped. -/
lemma cellStep_insert : cellStep L s .insert = some s' ↔
    ∃ current rec, s.poll = .reading current ∅ rec ∧
      ((L.decode rec).complete = true ∧ s' = { s with
          poll := .handled current
          db := s.db.insertRecord (L.decode rec)
          inserted := s.inserted ++ [s.lastSeen] } ∨
        (L.decode rec).complete = false ∧ s' = { s with poll := .handled current }) := by
  cases h : s.poll with
  | reading current left rec =>
    by_cases hleft : left = ∅
    · subst hleft
      cases hrec : (L.decode rec).complete <;> simpa [cellStep, h, hrec] using eq_comm
    · simp [cellStep, h, hleft]
  | _ => simp [cellStep, h]

/-- The watermark moves on by one. -/
lemma cellStep_advance : cellStep L s .advance = some s' ↔
    ∃ current, s.poll = .handled current ∧
      s' = { s with poll := .loop current, lastSeen := s.lastSeen + 1 } := by
  cases h : s.poll <;> simp [cellStep, h, eq_comm]

/-- A poll returns when the watermark has reached the copy. -/
lemma cellStep_pollReturn : cellStep L s .pollReturn = some s' ↔
    ∃ current, s.poll = .loop current ∧ current ≤ s.lastSeen ∧
      s' = { s with poll := .idle, polled := s.polled ++ [current] } := by
  cases h : s.poll <;> simp [cellStep, h, eq_comm]

end Cases

/-- What holds while the server is in `storeRecord`. -/
def CellStorePc.Ok (s : CellSys ι β) : CellStorePc ι → Prop
  | idle => True
  | entered _ idx => idx = slotIdx s.recordCount
  | writing rec idx left => idx = slotIdx s.recordCount ∧
    s.recordCount - s.lastSeen < shmMaxRecords ∧ Copying left (L.encode rec) (s.cells idx)

/-- What holds while the database process is in `poll`. -/
def CellPollPc.Ok (s : CellSys ι β) : CellPollPc ι β → Prop
  | idle => True
  | loop current => current ≤ s.recordCount
  | reading current left rec => s.lastSeen < current ∧ current ≤ s.recordCount ∧
    Copying left (s.cells (slotIdx s.lastSeen)) rec
  | handled current => s.lastSeen < current ∧ current ≤ s.recordCount

/-- **The invariant of the cells**: what is written so far is from the record handed over, what is
read so far stands in the slot that is read, and the two slots are different. -/
structure CellInv (s : CellSys ι β) : Prop where
  lastSeen_le : s.lastSeen ≤ s.recordCount
  store : s.store.Ok L s
  poll : s.poll.Ok s

namespace CellInv

variable {L} {s s' : CellSys ι β} {e : CellEvent ι β}

/-- The invariant holds at the start. -/
lemma init (cells : SlotIndex → ι → β) (db : Database) : CellInv L (.init cells db) :=
  ⟨le_rfl, trivial, trivial⟩

/-- The slot that the poller is about to read is not the one that is being written. -/
lemma slotIdx_lastSeen_ne (h : CellInv L s) (hlt : s.lastSeen < s.recordCount)
    {rec : ParkingRecord} {idx : SlotIndex} {left : Finset ι}
    (hstore : s.store = .writing rec idx left) : slotIdx s.lastSeen ≠ idx := by
  obtain ⟨rfl, hlag, -⟩ : CellStorePc.Ok L s (.writing rec idx left) := hstore ▸ h.store
  exact slotIdx_ne hlt hlag

/-- The poller finds a whole record. -/
lemma slots_lastSeen (h : CellInv L s) (hlt : s.lastSeen < s.recordCount) :
    s.store.slots L s.cells (slotIdx s.lastSeen) = L.decode (s.cells (slotIdx s.lastSeen)) := by
  cases hstore : s.store with
  | writing rec idx left =>
    rw [CellStorePc.slots, Function.update_of_ne (h.slotIdx_lastSeen_ne hlt hstore)]
  | _ => rfl

/-- **Every step keeps the invariant**, if fewer records wait than there are slots. -/
lemma step [DecidableEq ι] [Fintype ι] (h : CellInv L s) (hok : StaysWithin shmMaxRecords s e)
    (hs : cellStep L s e = some s') : CellInv L s' := by
  obtain ⟨hle, hstore, hpoll⟩ := h
  cases e with
  | storeRecord rec =>
    obtain ⟨-, rfl⟩ := cellStep_storeRecord.mp hs
    exact ⟨hle, rfl, hpoll⟩
  | beginWrite =>
    obtain ⟨rec, idx, hpc, rfl⟩ := cellStep_beginWrite.mp hs
    rw [hpc] at hstore
    exact ⟨hle, ⟨hstore, hok, .start _ _⟩, hpoll⟩
  | writeCell i =>
    obtain ⟨rec, idx, left, hpc, hi, rfl⟩ := cellStep_writeCell.mp hs
    rw [hpc] at hstore
    obtain ⟨rfl, hlag, hcopy⟩ := hstore
    refine ⟨hle, ⟨rfl, hlag, ?_⟩, ?_⟩
    · simp only [Function.update_self]
      exact hcopy.copyCell i
    · cases hread : s.poll with
      | reading current left' rec' =>
        rw [hread] at hpoll
        obtain ⟨hlt, hcurrent, hcopy'⟩ := hpoll
        have hne := slotIdx_ne (hlt.trans_le hcurrent) hlag
        refine ⟨hlt, hcurrent, ?_⟩
        simpa only [Function.update_of_ne hne] using hcopy'
      | _ =>
        rw [hread] at hpoll
        exact hpoll
  | increment =>
    obtain ⟨rec, idx, -, -, rfl⟩ := cellStep_increment.mp hs
    refine ⟨hle.trans (Nat.le_succ _), trivial, ?_⟩
    cases hread : s.poll with
    | idle => trivial
    | loop current =>
      rw [hread] at hpoll
      exact hpoll.trans (Nat.le_succ _)
    | reading current left rec =>
      rw [hread] at hpoll
      exact ⟨hpoll.1, hpoll.2.1.trans (Nat.le_succ _), hpoll.2.2⟩
    | handled current =>
      rw [hread] at hpoll
      exact ⟨hpoll.1, hpoll.2.trans (Nat.le_succ _)⟩
  | snapshot =>
    obtain ⟨-, rfl⟩ := cellStep_snapshot.mp hs
    exact ⟨hle, hstore, le_rfl⟩
  | beginRead stack =>
    obtain ⟨current, hpc, hlt, rfl⟩ := cellStep_beginRead.mp hs
    rw [hpc] at hpoll
    exact ⟨hle, hstore, hlt, hpoll, .start _ _⟩
  | readCell i =>
    obtain ⟨current, left, rec, hpc, -, rfl⟩ := cellStep_readCell.mp hs
    rw [hpc] at hpoll
    exact ⟨hle, hstore, hpoll.1, hpoll.2.1, hpoll.2.2.copyCell i⟩
  | insert =>
    obtain ⟨current, rec, hpc, ⟨-, rfl⟩ | ⟨-, rfl⟩⟩ := cellStep_insert.mp hs <;>
      rw [hpc] at hpoll <;> exact ⟨hle, hstore, hpoll.1, hpoll.2.1⟩
  | advance =>
    obtain ⟨current, hpc, rfl⟩ := cellStep_advance.mp hs
    rw [hpc] at hpoll
    refine ⟨hpoll.1.trans_le hpoll.2, ?_, hpoll.2⟩
    cases hwrite : s.store with
    | writing rec idx left =>
      rw [hwrite] at hstore
      exact ⟨hstore.1, by have := hstore.2.1; simp only; omega, hstore.2.2⟩
    | _ =>
      rw [hwrite] at hstore
      exact hstore
  | pollReturn =>
    obtain ⟨current, -, -, rfl⟩ := cellStep_pollReturn.mp hs
    exact ⟨hle, hstore, trivial⟩

end CellInv

/-! ## The two rings -/

section Refinement

variable {L} {s s' : CellSys ι β} {e : CellEvent ι β}

/-- A cell that is written does not change the slots: they have the whole record already. -/
lemma slots_writeCell (cells : SlotIndex → ι → β) (rec : ParkingRecord) (idx : SlotIndex)
    (left left' : Finset ι) (contents : ι → β) :
    (CellStorePc.writing rec idx left').slots L (Function.update cells idx contents) =
      (CellStorePc.writing rec idx left).slots L cells := by
  funext k
  by_cases hk : k = idx
  · subst hk
    rw [CellStorePc.slots, CellStorePc.slots, Function.update_self, Function.update_self]
  · rw [CellStorePc.slots, CellStorePc.slots, Function.update_of_ne hk, Function.update_of_ne hk,
      Function.update_of_ne hk]

/-- A slot whose cells are all written holds the record. -/
lemma slots_written {cells : SlotIndex → ι → β} {rec : ParkingRecord} {idx : SlotIndex}
    (h : cells idx = L.encode rec) :
    (CellStorePc.writing rec idx ∅).slots L cells = CellStorePc.idle.slots L cells := by
  rw [CellStorePc.slots, CellStorePc.slots, Function.update_eq_self_iff, h, L.decode_encode]
  simp

/-- A step of the ring of cells is the step of the ring of records, or none. -/
lemma CellInv.ringStep [DecidableEq ι] [Fintype ι] (h : CellInv L s)
    (hok : StaysWithin shmMaxRecords s e) (hs : cellStep L s e = some s') :
    (∀ d, e.ring = some d → RingOk (s.ring L).lastSeen (s.ring L) d ∧
      ringStep (s.ring L) d = some (s'.ring L)) ∧ (e.ring = none → s'.ring L = s.ring L) := by
  cases e with
  | storeRecord rec =>
    obtain ⟨hpc, rfl⟩ := cellStep_storeRecord.mp hs
    refine ⟨fun d hd => ?_, nofun⟩
    obtain rfl := Option.some.inj hd
    refine ⟨hok, ringStep_storeRecord.mpr ?_⟩
    simp only [CellSys.ring, hpc]
    exact ⟨rfl, rfl⟩
  | beginWrite =>
    obtain ⟨rec, idx, hpc, rfl⟩ := cellStep_beginWrite.mp hs
    have hidx : CellStorePc.Ok L s (.entered rec idx) := hpc ▸ h.store
    obtain rfl : idx = slotIdx s.recordCount := hidx
    refine ⟨fun d hd => ?_, nofun⟩
    obtain rfl := Option.some.inj hd
    -- the slot that is read is not the one that is about to be written
    have hpoll : s.poll.ring ((CellStorePc.writing rec (slotIdx s.recordCount)
          Finset.univ).slots L s.cells (slotIdx s.lastSeen)) =
        s.poll.ring (L.decode (s.cells (slotIdx s.lastSeen))) := by
      cases hread : s.poll with
      | reading current left copy =>
        have hreading : CellPollPc.Ok s (.reading current left copy) := hread ▸ h.poll
        have hne := slotIdx_ne (hreading.1.trans_le hreading.2.1) hok
        rw [CellStorePc.slots, Function.update_of_ne hne]
      | _ => rfl
    refine ⟨hok, ringStep_writeSlot.mpr ⟨rec, slotIdx s.recordCount, ?_⟩⟩
    simp only [CellSys.ring, hpc, hpoll, RecordArea.write_ofSlots]
    exact ⟨rfl, rfl⟩
  | writeCell i =>
    obtain ⟨rec, idx, left, hpc, hi, rfl⟩ := cellStep_writeCell.mp hs
    refine ⟨by simp [CellEvent.ring], fun _ => ?_⟩
    simp only [CellSys.ring, hpc, slots_writeCell s.cells rec idx left]
    rfl
  | increment =>
    obtain ⟨rec, idx, hpc, hrange, rfl⟩ := cellStep_increment.mp hs
    have hwriting : CellStorePc.Ok L s (.writing rec idx ∅) := hpc ▸ h.store
    refine ⟨fun d hd => ?_, nofun⟩
    obtain rfl := Option.some.inj hd
    refine ⟨trivial, ringStep_increment.mpr ⟨rec, ?_⟩⟩
    simp only [CellSys.ring, hpc, slots_written hwriting.2.2.eq, RecordArea.increment_ofSlots]
    exact ⟨rfl, hrange, rfl⟩
  | snapshot =>
    obtain ⟨hpc, rfl⟩ := cellStep_snapshot.mp hs
    refine ⟨fun d hd => ?_, nofun⟩
    obtain rfl := Option.some.inj hd
    refine ⟨trivial, ringStep_snapshot.mpr ?_⟩
    simp only [CellSys.ring, hpc]
    exact ⟨rfl, rfl⟩
  | beginRead stack =>
    obtain ⟨current, hpc, hlt, rfl⟩ := cellStep_beginRead.mp hs
    refine ⟨fun d hd => ?_, nofun⟩
    obtain rfl := Option.some.inj hd
    refine ⟨trivial, ringStep_readSlot.mpr ⟨current, ?_⟩⟩
    simp only [CellSys.ring, hpc, RecordArea.slot_ofSlots]
    exact ⟨rfl, hlt, rfl⟩
  | readCell i =>
    obtain ⟨current, left, rec, hpc, -, rfl⟩ := cellStep_readCell.mp hs
    refine ⟨by simp [CellEvent.ring], fun _ => ?_⟩
    simp only [CellSys.ring, hpc]
    rfl
  | insert =>
    obtain ⟨current, rec, hpc, hcases⟩ := cellStep_insert.mp hs
    have hreading : CellPollPc.Ok s (.reading current ∅ rec) := hpc ▸ h.poll
    obtain ⟨hlt, hle, hcopy⟩ := hreading
    have hrec : s.store.slots L s.cells (slotIdx s.lastSeen) = L.decode rec := by
      rw [h.slots_lastSeen (hlt.trans_le hle), hcopy.eq]
    refine ⟨fun d hd => ?_, nofun⟩
    obtain rfl := Option.some.inj hd
    refine ⟨trivial, ringStep_insert.mpr ⟨current, L.decode rec, ?_, ?_⟩⟩
    · simp only [CellSys.ring, hpc, CellPollPc.ring, hrec]
    · rcases hcases with ⟨hcomplete, rfl⟩ | ⟨hcomplete, rfl⟩
      · exact .inl ⟨hcomplete, rfl⟩
      · exact .inr ⟨hcomplete, rfl⟩
  | advance =>
    obtain ⟨current, hpc, rfl⟩ := cellStep_advance.mp hs
    refine ⟨fun d hd => ?_, nofun⟩
    obtain rfl := Option.some.inj hd
    refine ⟨trivial, ringStep_advance.mpr ⟨current, ?_⟩⟩
    simp only [CellSys.ring, hpc]
    exact ⟨rfl, rfl⟩
  | pollReturn =>
    obtain ⟨current, hpc, hle, rfl⟩ := cellStep_pollReturn.mp hs
    refine ⟨fun d hd => ?_, nofun⟩
    obtain rfl := Option.some.inj hd
    refine ⟨trivial, ringStep_pollReturn.mpr ⟨current, ?_⟩⟩
    simp only [CellSys.ring, hpc]
    exact ⟨rfl, hle, rfl⟩

/-- **Records stay whole while the poller keeps up.**  For every layout of the records, every order
of the cells and every interleaving in which fewer than `SHM_MAX_RECORDS` records wait when a slot
begins to be written: the run is one of the ring that is written and read by whole records, and the
rows inserted are the first records stored, in order and as they were handed over. -/
theorem records_stay_whole [DecidableEq ι] [Fintype ι] {cells : SlotIndex → ι → β} {db : Database}
    {es : List (CellEvent ι β)}
    (h : Trace (cellStep L) (StaysWithin shmMaxRecords) (.init cells db) es s) :
    Trace ringStep (fun s => RingOk s.lastSeen s)
        (.init (.ofSlots 0 fun idx => L.decode (cells idx)) db) (es.filterMap CellEvent.ring)
        (s.ring L) ∧
      ∃ rows, s.db.customerData = db.customerData ++ rows ∧ rows <+: s.stored ∧
        ∀ n ∈ s.polled, n ≤ s.stored.length ∧ rows.take n = s.stored.take n := by
  have hring : Trace ringStep (fun s => RingOk s.lastSeen s)
      (.init (.ofSlots 0 fun idx => L.decode (cells idx)) db) (es.filterMap CellEvent.ring)
      (s.ring L) := by
    have hinit : CellInv L (.init cells db) := .init cells db
    exact h.simulate (CellSys.ring L) CellEvent.ring hinit
      (fun _ _ _ hs hok hstep => hs.step hok hstep) fun _ _ _ hs hok hstep => hs.ringStep hok hstep
  have hinv : PollInv db (s.ring L) := by
    refine hring.invariant ⟨.init rfl db, rfl, by simp [RingSys.init]⟩ ?_
    intro s e s' hs hok hstep
    exact hs.step hok hstep
  refine ⟨hring, s.stored.take (s.ring L).progress, hinv.ring.customerData_eq hinv.inserted_eq,
    List.take_prefix _ _, fun n hn => ?_⟩
  have hle := hinv.polled_le n hn
  exact ⟨hle.trans hinv.ring.progress_le, by rw [List.take_take, min_eq_left hle]⟩

end Refinement

/-! ## One lap behind -/

section Torn

variable [DecidableEq ι] [Fintype ι] {L} {s : CellSys ι β} {a b : ParkingRecord}

/-- The poller may be one lap behind when a slot begins to be written, and all records that are
handed over are `a` or `b`. -/
def OneLap (a b : ParkingRecord) (s : CellSys ι β) (e : CellEvent ι β) : Prop :=
  StaysWithin (shmMaxRecords + 1) s e ∧ ∀ rec, e = .storeRecord rec → rec = a ∨ rec = b

/-- Some of the cells are written. -/
lemma exists_writeCells {rec : ParkingRecord} {idx : SlotIndex} {left : Finset ι}
    (hpc : s.store = .writing rec idx left) (T : Finset ι) (hT : T ⊆ left) :
    ∃ es, Trace (cellStep L) (OneLap a b) s es { s with
      cells := Function.update s.cells idx (T.piecewise (L.encode rec) (s.cells idx))
      store := .writing rec idx (left \ T) } := by
  induction T using Finset.induction_on with
  | empty =>
    refine ⟨[], ?_⟩
    simp only [Finset.piecewise_empty, Function.update_eq_self, Finset.sdiff_empty]
    rw [← hpc]
    exact .nil
  | insert i T hi ih =>
    obtain ⟨es, hes⟩ := ih fun j hj => hT (Finset.mem_insert_of_mem hj)
    refine ⟨_, hes.snoc (e := CellEvent.writeCell i) ⟨trivial, by simp⟩ (cellStep_writeCell.mpr ?_)⟩
    refine ⟨rec, idx, left \ T, rfl, ?_, ?_⟩
    · exact Finset.mem_sdiff.mpr ⟨hT (Finset.mem_insert_self i T), hi⟩
    · simp only [Function.update_self, Function.update_idem, Finset.piecewise_insert]
      rw [Finset.sdiff_insert]

/-- Some of the cells are read. -/
lemma exists_readCells {current : ℕ} {rec : ι → β} {left : Finset ι}
    (hpc : s.poll = .reading current left rec) (T : Finset ι) (hT : T ⊆ left) :
    ∃ es, Trace (cellStep L) (OneLap a b) s es { s with
      poll := .reading current (left \ T) (T.piecewise (s.cells (slotIdx s.lastSeen)) rec) } := by
  induction T using Finset.induction_on with
  | empty =>
    refine ⟨[], ?_⟩
    simp only [Finset.piecewise_empty, Finset.sdiff_empty]
    rw [← hpc]
    exact .nil
  | insert i T hi ih =>
    obtain ⟨es, hes⟩ := ih fun j hj => hT (Finset.mem_insert_of_mem hj)
    refine ⟨_, hes.snoc (e := CellEvent.readCell i) ⟨trivial, by simp⟩ (cellStep_readCell.mpr ?_)⟩
    refine ⟨current, left \ T, _, rfl, ?_, ?_⟩
    · exact Finset.mem_sdiff.mpr ⟨hT (Finset.mem_insert_self i T), hi⟩
    · simp only [Finset.piecewise_insert]
      rw [Finset.sdiff_insert]

/-- The assignment to a slot, up to its last cell. -/
lemma exists_write (rec : ParkingRecord) (hpc : s.store = .idle)
    (hlag : s.recordCount - s.lastSeen < shmMaxRecords + 1) (hrec : rec.complete = true)
    (hab : rec = a ∨ rec = b) :
    ∃ es, Trace (cellStep L) (OneLap a b) s es { s with
      cells := Function.update s.cells (slotIdx s.recordCount) (L.encode rec)
      store := .writing rec (slotIdx s.recordCount) ∅ } := by
  have hcall : Trace (cellStep L) (OneLap a b) s [.storeRecord rec]
      { s with store := .entered rec (slotIdx s.recordCount) } := by
    refine Trace.nil.snoc (e := CellEvent.storeRecord rec) ⟨hrec, fun rec' h => ?_⟩
      (cellStep_storeRecord.mpr ⟨hpc, rfl⟩)
    obtain rfl := CellEvent.storeRecord.inj h
    exact hab
  have hbegin := hcall.snoc (e := CellEvent.beginWrite) ⟨hlag, by simp⟩
    (cellStep_beginWrite.mpr ⟨rec, slotIdx s.recordCount, rfl, rfl⟩)
  obtain ⟨es, hes⟩ := exists_writeCells (L := L) (a := a) (b := b) (s := { s with
    store := .writing rec (slotIdx s.recordCount) Finset.univ }) rfl Finset.univ le_rfl
  refine ⟨[.storeRecord rec, .beginWrite] ++ es, hbegin.append ?_⟩
  simpa only [Finset.piecewise_univ, Finset.sdiff_self] using hes

/-- A whole call of `storeRecord`. -/
lemma exists_store (rec : ParkingRecord) (hpc : s.store = .idle)
    (hlag : s.recordCount - s.lastSeen < shmMaxRecords + 1) (hrange : s.recordCount + 1 < 2 ^ 31)
    (hrec : rec.complete = true) (hab : rec = a ∨ rec = b) :
    ∃ es, Trace (cellStep L) (OneLap a b) s es { s with
      recordCount := s.recordCount + 1
      cells := Function.update s.cells (slotIdx s.recordCount) (L.encode rec)
      stored := s.stored ++ [rec] } := by
  obtain ⟨es, hes⟩ := exists_write (L := L) (s := s) rec hpc hlag hrec hab
  refine ⟨_, hes.snoc (e := CellEvent.increment) ⟨trivial, by simp⟩ (cellStep_increment.mpr ?_)⟩
  exact ⟨rec, slotIdx s.recordCount, rfl, hrange, by rw [hpc]⟩

/-- What a step of the server leaves alone. -/
structure PollerFrame (s s' : CellSys ι β) : Prop where
  lastSeen : s'.lastSeen = s.lastSeen
  poll : s'.poll = s.poll
  db : s'.db = s.db

/-- Several calls of `storeRecord`, which stay within the lap of the record that is read. -/
lemma exists_stores (n : ℕ) (hpc : s.store = .idle) (hlt : s.lastSeen < s.recordCount)
    (hlag : s.recordCount + n ≤ s.lastSeen + shmMaxRecords)
    (hrange : s.recordCount + n < 2 ^ 31) (hb : b.complete = true) :
    ∃ es s', Trace (cellStep L) (OneLap a b) s es s' ∧ PollerFrame s s' ∧ s'.store = .idle ∧
      s'.recordCount = s.recordCount + n ∧
      s'.cells (slotIdx s.lastSeen) = s.cells (slotIdx s.lastSeen) := by
  induction n with
  | zero => exact ⟨[], s, .nil, ⟨rfl, rfl, rfl⟩, hpc, rfl, rfl⟩
  | succ n ih =>
    obtain ⟨es, s₁, hes, hframe, hidle, hcount, hcells⟩ := ih (by omega) (by omega)
    have hlast := hframe.lastSeen
    obtain ⟨es', hes'⟩ := exists_store (L := L) (a := a) b hidle (by omega) (by omega)
      hb (.inr rfl)
    have hne : slotIdx s.lastSeen ≠ slotIdx s₁.recordCount := slotIdx_ne (by omega) (by omega)
    refine ⟨es ++ es', _, hes.append hes', ⟨hlast, hframe.poll, hframe.db⟩, hidle, ?_, ?_⟩
    · simp only [hcount]
      rfl
    · simp only [Function.update_of_ne hne, hcells]

/-- The server goes round the ring, and writes over the slot of the record that is read. -/
lemma exists_lap (hpc : s.store = .idle) (hlt : s.lastSeen < s.recordCount)
    (hrange : s.lastSeen + shmMaxRecords < 2 ^ 31)
    (hcount : s.recordCount ≤ s.lastSeen + shmMaxRecords) (hb : b.complete = true) :
    ∃ es s', Trace (cellStep L) (OneLap a b) s es s' ∧ PollerFrame s s' ∧
      s'.cells (slotIdx s.lastSeen) = L.encode b := by
  obtain ⟨n, hn⟩ := Nat.exists_eq_add_of_le hcount
  obtain ⟨es, s₁, hes, hframe, hidle, hcount₁, -⟩ :=
    exists_stores (L := L) (a := a) n hpc hlt hn.ge (hn ▸ hrange) hb
  have hlast := hframe.lastSeen
  obtain ⟨es', hes'⟩ := exists_write (L := L) (a := a) b hidle (by omega) hb (.inr rfl)
  refine ⟨es ++ es', _, hes.append hes', ⟨hlast, hframe.poll, hframe.db⟩, ?_⟩
  have hslot : slotIdx s.lastSeen = slotIdx s₁.recordCount := by
    rw [hcount₁, ← hn]
    exact Fin.ext (Nat.add_mod_right _ _).symm
  simp only [hslot, Function.update_self]

/-- A record is stored, and the poller has read all its cells but those in `T`. -/
lemma exists_half_read (cells : SlotIndex → ι → β) (db : Database) (T : Finset ι)
    (ha : a.complete = true) :
    ∃ es s copy, Trace (cellStep L) (OneLap a b) (.init cells db) es s ∧ s.store = .idle ∧
      s.recordCount = 1 ∧ s.lastSeen = 0 ∧ s.db = db ∧ s.poll = .reading 1 T copy ∧
      Copying T (L.encode a) copy := by
  have hrange : (CellSys.init cells db).recordCount + 1 < 2 ^ 31 := by norm_num [CellSys.init]
  obtain ⟨es₁, h₁⟩ := exists_store (L := L) (a := a) (b := b) (s := .init cells db) a rfl
    (by norm_num [CellSys.init]) hrange ha (.inl rfl)
  have h₂ := (h₁.snoc (e := CellEvent.snapshot) ⟨trivial, by simp⟩
    (cellStep_snapshot.mpr ⟨rfl, rfl⟩)).snoc (e := CellEvent.beginRead (cells (slotIdx 0)))
    ⟨trivial, by simp⟩ (cellStep_beginRead.mpr ⟨1, rfl, Nat.one_pos, rfl⟩)
  obtain ⟨es₃, h₃⟩ := exists_readCells (L := L) (a := a) (b := b) (s := { CellSys.init cells db with
      recordCount := 1
      cells := Function.update cells (slotIdx 0) (L.encode a)
      poll := .reading 1 Finset.univ (cells (slotIdx 0))
      stored := [a] }) rfl (Finset.univ \ T) Finset.sdiff_subset
  have hleft : Finset.univ \ (Finset.univ \ T) = T := by simp
  rw [hleft] at h₃
  refine ⟨_, _, (Finset.univ \ T).piecewise (L.encode a) (cells (slotIdx 0)), h₂.append h₃, rfl,
    rfl, rfl, rfl, ?_, fun i hi => by simp [hi]⟩
  simp only [CellSys.init, Function.update_self]

/-- **One lap behind, any mixture of two records may be inserted.**  For every layout of the records
and every set of cells with which the mixture is a complete record: in some run in which only the
records `a` and `b` are handed over, and in which at most `SHM_MAX_RECORDS` records wait when a slot
begins to be written, the first row inserted has these cells from `b` and the others from `a`. -/
theorem mixed_row_inserted (L : Layout ParkingRecord ι β) (cells : SlotIndex → ι → β)
    (db : Database) (T : Finset ι) (ha : a.complete = true) (hb : b.complete = true)
    (hmix : (L.decode (T.piecewise (L.encode b) (L.encode a))).complete = true) :
    ∃ es s, Trace (cellStep L) (OneLap a b) (.init cells db) es s ∧
      s.db.customerData =
        db.customerData ++ [L.decode (T.piecewise (L.encode b) (L.encode a))] := by
  obtain ⟨es₁, s₁, copy, h₁, hidle, hcount, hlast, hdb, hpoll, hcopy⟩ :=
    exists_half_read (L := L) (b := b) cells db T ha
  have hlap : s₁.lastSeen + shmMaxRecords < 2 ^ 31 ∧
      s₁.recordCount ≤ s₁.lastSeen + shmMaxRecords := by
    rw [hcount, hlast]
    norm_num
  obtain ⟨es₂, s₂, h₂, hframe, hcells⟩ :=
    exists_lap (L := L) (a := a) hidle (by omega) hlap.1 hlap.2 hb
  obtain ⟨es₃, h₃⟩ := exists_readCells (L := L) (a := a) (b := b) (hframe.poll.trans hpoll) T le_rfl
  have hmixture : T.piecewise (s₂.cells (slotIdx s₂.lastSeen)) copy =
      T.piecewise (L.encode b) (L.encode a) := by
    rw [hframe.lastSeen, hcells]
    funext i
    by_cases hi : i ∈ T
    · simp [hi]
    · simp [hi, hcopy i hi]
  rw [hmixture, Finset.sdiff_self] at h₃
  refine ⟨_, _, ((h₁.append h₂).append h₃).snoc (e := CellEvent.insert) ⟨trivial, by simp⟩
    (cellStep_insert.mpr ⟨1, _, rfl, .inl ⟨hmix, rfl⟩⟩), ?_⟩
  simp only [Database.insertRecord, hframe.db, hdb]

end Torn

end Cells

/-! ## A layout -/

/-- The fields of `parking_record_t`. -/
inductive RecordField where
  | customerId
  | startLat
  | startLon
  | endLat
  | endLon
  | startTime
  | endTime
  | totalFee
  | city
  | complete
deriving DecidableEq

/-- The fields, in the order of their declaration. -/
def recordFields : List RecordField :=
  [.customerId, .startLat, .startLon, .endLat, .endLon, .startTime, .endTime, .totalFee, .city,
    .complete]

instance : Fintype RecordField := ⟨recordFields.toFinset, fun field => by cases field <;> decide⟩

/-- The value of a field. -/
inductive FieldValue where
  | text (buf : CharBuf cityNameLen)
  | double (q : ℚ)
  | time (t : ℤ)
  | flag (b : Bool)

namespace FieldValue

/-- A field read as a `char` array. -/
def buf : FieldValue → CharBuf cityNameLen
  | text buf => buf
  | _ => strncpy cityNameLen []

/-- A field read as a `double`. -/
def toDouble : FieldValue → ℚ
  | double q => q
  | _ => 0

/-- A field read as a `time_t`. -/
def toTime : FieldValue → ℤ
  | time t => t
  | _ => 0

/-- A field read as a flag. -/
def isSet : FieldValue → Bool
  | flag b => b
  | _ => false

end FieldValue

/-- Each field of a record is copied by one access. -/
def fieldLayout : Layout ParkingRecord RecordField FieldValue where
  encode rec
    | .customerId => .text rec.customerId
    | .startLat => .double rec.startLat
    | .startLon => .double rec.startLon
    | .endLat => .double rec.endLat
    | .endLon => .double rec.endLon
    | .startTime => .time rec.startTime
    | .endTime => .time rec.endTime
    | .totalFee => .double rec.totalFee
    | .city => .text rec.city
    | .complete => .flag rec.complete
  decode f :=
    { customerId := (f .customerId).buf
      startLat := (f .startLat).toDouble
      startLon := (f .startLon).toDouble
      endLat := (f .endLat).toDouble
      endLon := (f .endLon).toDouble
      startTime := (f .startTime).toTime
      endTime := (f .endTime).toTime
      totalFee := (f .totalFee).toDouble
      city := (f .city).buf
      complete := (f .complete).isSet }
  decode_encode _ := rfl

/-- The ring of a newly created segment. -/
def zeroCells : SlotIndex → RecordField → FieldValue := fun _ => fieldLayout.encode .zero

instance (lag : ℕ) (s : CellSys RecordField FieldValue) :
    (e : CellEvent RecordField FieldValue) → Decidable (StaysWithin lag s e)
  | .storeRecord rec => inferInstanceAs (Decidable (rec.complete = true))
  | .beginWrite => inferInstanceAs (Decidable (s.recordCount - s.lastSeen < lag))
  | .writeCell _ | .increment | .snapshot | .beginRead _ | .readCell _ | .insert | .advance
  | .pollReturn => .isTrue trivial

/-- A record is stored from its first field on, and read from its last field on. -/
theorem records_stay_whole_one :
    ∃ s : CellSys RecordField FieldValue, s.stored.length = 1 ∧ s.polled = [1] ∧
      ∃ rows, s.db.customerData = [] ++ rows ∧ rows <+: s.stored ∧
        ∀ n ∈ s.polled, n ≤ s.stored.length ∧ rows.take n = s.stored.take n := by
  have hrun : (replayEvents (cellStep fieldLayout) (StaysWithin shmMaxRecords)
      (.init zeroCells ⟨fun _ => none, []⟩)
      ([.storeRecord { ParkingRecord.zero with complete := true }, .beginWrite] ++
        recordFields.map .writeCell ++
        [.increment, .snapshot, .beginRead (zeroCells (slotIdx 0))] ++
        recordFields.reverse.map .readCell ++ [.insert, .advance, .pollReturn])).map
      (fun s => (s.stored.length, s.polled)) = some (1, [1]) := by decide +kernel
  obtain ⟨s, hs, hend⟩ := Option.map_eq_some_iff.mp hrun
  obtain ⟨hlen, hpolled⟩ := Prod.mk.inj hend
  exact ⟨s, hlen, hpolled, (records_stay_whole (Trace.of_replayEvents hs)).2⟩

/-- A record without a fee that is read while one with a fee is written over it. -/
theorem mixed_row_inserted_fee :
    ∃ es s, Trace (cellStep fieldLayout)
        (OneLap { ParkingRecord.zero with complete := true }
          { ParkingRecord.zero with complete := true, endTime := 60, totalFee := 5 })
        (.init zeroCells ⟨fun _ => none, []⟩) es s ∧
      s.db.customerData = [] ++ [{ ParkingRecord.zero with complete := true, totalFee := 5 }] :=
  mixed_row_inserted fieldLayout zeroCells ⟨fun _ => none, []⟩ {.totalFee} rfl rfl rfl

end ParkingSystem
