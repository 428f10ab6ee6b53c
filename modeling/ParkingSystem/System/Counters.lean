import ParkingSystem.Foundation.CInt
import ParkingSystem.System.RecordRing

/-!
# The counters of the ring as signed integers

`record_count` counts all records stored in the life of the segment, and `lastSeen_` all records
that a database process has passed over.  Nothing ever resets `record_count`, and here both
counters are `int`s of 32 bits that wrap around.

As long as fewer than `2 ^ 31` records are stored, the counters are the numbers that they stand for
(`CounterInv`).  The next store makes `record_count` negative: `poll` compares it as a signed
number and takes nothing more from the ring, and the remainder `record_count % SHM_MAX_RECORDS` is
no index.
-/

namespace ParkingSystem

open Foundation

/-- The index `count % SHM_MAX_RECORDS` of a slot.  It has the sign of the counter. -/
def slotIndex (count : ℤ) : ℤ := count.tmod shmMaxRecords

/-- The ring buffer of the shared segment, with `record_count` as an `int`. -/
structure IntArea where
  recordCount : ℤ
  records : List ParkingRecord
  /-- The array has its declared size. -/
  length_records : records.length = shmMaxRecords

namespace IntArea

/-- `records[idx]`, if that is an element of the array. -/
def read (area : IntArea) (idx : ℤ) : Option ParkingRecord :=
  if 0 ≤ idx then area.records[idx.toNat]? else none

/-- `records[idx] = rec`, if that is an element of the array. -/
def write (area : IntArea) (idx : ℤ) (rec : ParkingRecord) : Option IntArea :=
  if 0 ≤ idx ∧ idx < shmMaxRecords then
    some { area with
      records := area.records.set idx.toNat rec
      length_records := by rw [List.length_set, area.length_records] }
  else none

/-- `record_count++`. -/
def increment (area : IntArea) : IntArea :=
  { area with recordCount := wrapSigned 32 (area.recordCount + 1) }

/-- The ring of a newly created segment, which the kernel fills with zeros. -/
def zero : IntArea := ⟨0, List.replicate shmMaxRecords .zero, List.length_replicate ..⟩

end IntArea

/-- Where the server is in `storeRecord`. -/
inductive IntStorePc where
  /-- Outside. -/
  | idle
  /-- The index is computed. -/
  | entered (rec : ParkingRecord) (idx : ℤ)
  /-- The slot is written. -/
  | written (rec : ParkingRecord)

/-- Where the database process is in `poll`. -/
inductive IntPollPc where
  /-- Outside. -/
  | idle
  /-- At the head of the loop, with the snapshot of `record_count`. -/
  | loop (current : ℤ)
  /-- The slot is copied. -/
  | copied (current : ℤ) (rec : ParkingRecord)
  /-- The copy is inserted or passed over. -/
  | handled (current : ℤ)

/-- What has happened in one call of `poll`. -/
structure PollRun where
  /-- The number of records that the database process had passed over before. -/
  first : ℕ
  /-- The number of records stored when the snapshot was taken. -/
  snap : ℕ
  /-- The largest lag at the snapshot and at the reads of slots. -/
  maxLag : ℕ
  /-- The records given to `insertRecord`. -/
  rows : List ParkingRecord

/-- The shared ring and the two processes.  The fields after `poll` belong to no process: they
record what has happened. -/
structure CounterSys where
  shm : IntArea
  store : IntStorePc
  /-- `lastSeen_`. -/
  lastSeen : ℤ
  poll : IntPollPc
  /-- The records whose `storeRecord` is complete, oldest first. -/
  stored : List ParkingRecord
  /-- The number of records whose slots are written, with one that is not counted yet. -/
  begun : ℕ
  /-- The number of records that the database process has passed over since its start. -/
  seen : ℕ
  /-- The indices at which slots were written and read. -/
  indices : List ℤ
  /-- An access was outside the array; nothing is said of what comes then. -/
  outside : Bool
  /-- The call of `poll` that is running, or the last one. -/
  run : PollRun
  /-- The calls of `poll` that have returned. -/
  polls : List PollRun

/-- How many records the server is ahead of the database process. -/
def CounterSys.lag (s : CounterSys) : ℕ := s.begun - s.seen

/-- A step of a process, or its restart, wherever it is. -/
inductive CounterEvent where
  /-- A step of the server or of the database process. -/
  | ring (e : RingEvent)
  | serverRestart
  | dbRestart
deriving DecidableEq

/-- The effect of a step of a process, if it can take it. -/
def intRingStep (s : CounterSys) : RingEvent → Option CounterSys
  | .storeRecord rec => match s.store with
    | .idle => some { s with store := .entered rec (slotIndex s.shm.recordCount) }
    | _ => none
  | .writeSlot => match s.store with
    | .entered rec idx => match s.shm.write idx rec with
      | some shm => some { s with
          shm := shm
          store := .written rec
          begun := s.stored.length + 1
          indices := s.indices ++ [idx] }
      | none => some { s with outside := true, indices := s.indices ++ [idx] }
    | _ => none
  | .increment => match s.store with
    | .written rec =>
      some { s with shm := s.shm.increment, store := .idle, stored := s.stored ++ [rec] }
    | _ => none
  | .snapshot => match s.poll with
    | .idle => some { s with
        poll := .loop s.shm.recordCount
        run := ⟨s.seen, s.stored.length, s.lag, []⟩ }
    | _ => none
  | .readSlot => match s.poll with
    | .loop current =>
      if s.lastSeen < current then
        let idx := slotIndex s.lastSeen
        match s.shm.read idx with
        | some rec => some { s with
            poll := .copied current rec
            indices := s.indices ++ [idx]
            run := { s.run with maxLag := max s.run.maxLag s.lag } }
        | none => some { s with outside := true, indices := s.indices ++ [idx] }
      else none
    | _ => none
  | .insert => match s.poll with
    | .copied current rec =>
      if rec.complete then
        some { s with
          poll := .handled current
          run := { s.run with rows := s.run.rows ++ [rec] } }
      else some { s with poll := .handled current }
    | _ => none
  | .advance => match s.poll with
    | .handled current => some { s with
        poll := .loop current
        lastSeen := wrapSigned 32 (s.lastSeen + 1)
        seen := s.seen + 1 }
    | _ => none
  | .pollReturn => match s.poll with
    | .loop current =>
      if s.lastSeen < current then none
      else some { s with poll := .idle, polls := s.polls ++ [s.run] }
    | _ => none

/-- The effect of an event, if it can happen.  A restart of the database process makes a new
`ShmPoller`. -/
def counterStep (s : CounterSys) (e : CounterEvent) : Option CounterSys :=
  if s.outside then none
  else match e with
    | .ring e => intRingStep s e
    | .serverRestart => some { s with store := .idle }
    | .dbRestart => some { s with poll := .idle, lastSeen := 0, seen := 0 }

section Cases

variable {s s' : CounterSys} {rec : ParkingRecord}

/-- `storeRecord` may be called when it is not running, and takes the index of its slot. -/
lemma intRingStep_storeRecord : intRingStep s (.storeRecord rec) = some s' ↔
    s.store = .idle ∧
      s' = { s with store := .entered rec (slotIndex s.shm.recordCount) } := by
  cases h : s.store <;> simp [intRingStep, h, eq_comm]

/-- The slot is written, if there is one with this index. -/
lemma intRingStep_writeSlot : intRingStep s .writeSlot = some s' ↔
    ∃ rec idx, s.store = .entered rec idx ∧
      ((∃ shm, s.shm.write idx rec = some shm ∧ s' = { s with
          shm := shm
          store := .written rec
          begun := s.stored.length + 1
          indices := s.indices ++ [idx] }) ∨
        s.shm.write idx rec = none ∧
          s' = { s with outside := true, indices := s.indices ++ [idx] }) := by
  cases h : s.store with
  | entered rec idx => cases hw : s.shm.write idx rec <;> simp [intRingStep, h, hw, eq_comm]
  | _ => simp [intRingStep, h]

/-- The counter is incremented when the slot has been written. -/
lemma intRingStep_increment : intRingStep s .increment = some s' ↔
    ∃ rec, s.store = .written rec ∧
      s' = { s with shm := s.shm.increment, store := .idle, stored := s.stored ++ [rec] } := by
  cases h : s.store <;> simp [intRingStep, h, eq_comm]

/-- A poll begins with a copy of the counter. -/
lemma intRingStep_snapshot : intRingStep s .snapshot = some s' ↔
    s.poll = .idle ∧ s' = { s with
      poll := .loop s.shm.recordCount
      run := ⟨s.seen, s.stored.length, s.lag, []⟩ } := by
  cases h : s.poll <;> simp [intRingStep, h, eq_comm]

/-- A slot is copied while the poller is behind, if there is one with this index. -/
lemma intRingStep_readSlot : intRingStep s .readSlot = some s' ↔
    ∃ current, s.poll = .loop current ∧ s.lastSeen < current ∧
      ((∃ rec, s.shm.read (slotIndex s.lastSeen) = some rec ∧ s' = { s with
          poll := .copied current rec
          indices := s.indices ++ [slotIndex s.lastSeen]
          run := { s.run with maxLag := max s.run.maxLag s.lag } }) ∨
        s.shm.read (slotIndex s.lastSeen) = none ∧
          s' = { s with
            outside := true
            indices := s.indices ++ [slotIndex s.lastSeen] }) := by
  cases h : s.poll with
  | loop current =>
    cases hr : s.shm.read (slotIndex s.lastSeen) <;> simp [intRingStep, h, hr, eq_comm]
  | _ => simp [intRingStep, h]

/-- A complete record is inserted, another one is skipped. -/
lemma intRingStep_insert : intRingStep s .insert = some s' ↔
    ∃ current rec, s.poll = .copied current rec ∧
      (rec.complete = true ∧ s' = { s with
          poll := .handled current
          run := { s.run with rows := s.run.rows ++ [rec] } } ∨
        rec.complete = false ∧ s' = { s with poll := .handled current }) := by
  cases h : s.poll with
  | copied current rec =>
    cases hrec : rec.complete <;> simpa [intRingStep, h, hrec] using eq_comm
  | _ => simp [intRingStep, h]

/-- The watermark moves on by one. -/
lemma intRingStep_advance : intRingStep s .advance = some s' ↔
    ∃ current, s.poll = .handled current ∧ s' = { s with
      poll := .loop current
      lastSeen := wrapSigned 32 (s.lastSeen + 1)
      seen := s.seen + 1 } := by
  cases h : s.poll <;> simp [intRingStep, h, eq_comm]

/-- A poll returns when the watermark has reached the copy. -/
lemma intRingStep_pollReturn : intRingStep s .pollReturn = some s' ↔
    ∃ current, s.poll = .loop current ∧ current ≤ s.lastSeen ∧
      s' = { s with poll := .idle, polls := s.polls ++ [s.run] } := by
  cases h : s.poll <;> simp [intRingStep, h, eq_comm]

end Cases

/-- The segment is new, and both processes have just started. -/
def CounterSys.init : CounterSys where
  shm := .zero
  store := .idle
  lastSeen := 0
  poll := .idle
  stored := []
  begun := 0
  seen := 0
  indices := []
  outside := false
  run := ⟨0, 0, 0, []⟩
  polls := []

/-- The callers of `storeRecord` hand over complete records. -/
def StoresComplete (_ : CounterSys) : CounterEvent → Prop
  | .ring (.storeRecord rec) => rec.complete = true
  | _ => True

/-- The records that were stored after the poll before, and before this one, are inserted. -/
def PollRun.PicksUp (run : PollRun) (stored : List ParkingRecord) : Prop :=
  ((stored.take run.snap).drop run.first).Sublist run.rows

/-- Slots are written and read at indices of the array, and every poll picks up the new records,
unless the server was more than `SHM_MAX_RECORDS` ahead of it. -/
structure CounterOk (s : CounterSys) : Prop where
  index_mem : ∀ idx ∈ s.indices, 0 ≤ idx ∧ idx < shmMaxRecords
  picksUp : ∀ run ∈ s.polls, run.maxLag ≤ shmMaxRecords → run.PicksUp s.stored

/-! ## Counters in range -/

/-- A poll has taken the records up to the number `k`, unless the server was too far ahead. -/
structure PollRun.UpTo (run : PollRun) (stored : List ParkingRecord) (k : ℕ) : Prop where
  first_le : run.first ≤ k
  le_snap : k ≤ run.snap
  snap_le : run.snap ≤ stored.length
  rows_eq : run.maxLag ≤ shmMaxRecords → run.rows = (stored.take k).drop run.first

namespace PollRun

variable {run : PollRun} {stored : List ParkingRecord} {rec : ParkingRecord} {k : ℕ}

/-- More records do not matter to a poll. -/
lemma UpTo.concat (h : run.UpTo stored k) (rec : ParkingRecord) : run.UpTo (stored ++ [rec]) k where
  first_le := h.first_le
  le_snap := h.le_snap
  snap_le := by
    rw [List.length_append]
    exact h.snap_le.trans (Nat.le_add_right _ _)
  rows_eq hlag := by
    rw [List.take_append_of_le_length (h.le_snap.trans h.snap_le)]
    exact h.rows_eq hlag

/-- A larger lag asks for less. -/
lemma UpTo.max_lag (h : run.UpTo stored k) (lag : ℕ) :
    { run with maxLag := max run.maxLag lag }.UpTo stored k where
  first_le := h.first_le
  le_snap := h.le_snap
  snap_le := h.snap_le
  rows_eq hlag := h.rows_eq ((le_max_left _ _).trans hlag)

/-- The next record is taken. -/
lemma UpTo.take (h : run.UpTo stored k) (hk : k < run.snap)
    (hrec : run.maxLag ≤ shmMaxRecords → stored[k]? = some rec) :
    { run with rows := run.rows ++ [rec] }.UpTo stored (k + 1) where
  first_le := h.first_le.trans (Nat.le_succ k)
  le_snap := hk
  snap_le := h.snap_le
  rows_eq hlag := by
    have hlength : run.first ≤ (stored.take k).length := by
      rw [List.length_take, min_eq_left (h.le_snap.trans h.snap_le)]
      exact h.first_le
    rw [List.take_add_one, hrec hlag, Option.toList_some, List.drop_append_of_le_length hlength,
      ← h.rows_eq hlag]

/-- A record is passed over. -/
lemma UpTo.skip (h : run.UpTo stored k) (hk : k < run.snap)
    (hlag : ¬ run.maxLag ≤ shmMaxRecords) : run.UpTo stored (k + 1) where
  first_le := h.first_le.trans (Nat.le_succ k)
  le_snap := hk
  snap_le := h.snap_le
  rows_eq hle := absurd hle hlag

/-- A poll that has come to its snapshot has picked up the new records. -/
lemma UpTo.picksUp (h : run.UpTo stored run.snap) (hlag : run.maxLag ≤ shmMaxRecords) :
    run.PicksUp stored := by
  rw [PicksUp, h.rows_eq hlag]

end PollRun

/-- What holds while the server is in `storeRecord`. -/
def IntStorePc.Ok (shm : IntArea) (stored : List ParkingRecord) (begun : ℕ) : IntStorePc → Prop
  | idle => True
  | entered rec idx => idx = (stored.length % shmMaxRecords : ℕ) ∧ rec.complete = true
  | written rec => shm.records[stored.length % shmMaxRecords]? = some rec ∧ rec.complete = true ∧
      begun = stored.length + 1

/-- What holds while the database process is in `poll`. -/
def IntPollPc.Ok (run : PollRun) (stored : List ParkingRecord) (seen : ℕ) : IntPollPc → Prop
  | idle => True
  | loop current => current = run.snap ∧ run.UpTo stored seen
  | copied current rec => current = run.snap ∧ run.UpTo stored seen ∧ seen < run.snap ∧
      (run.maxLag ≤ shmMaxRecords → stored[seen]? = some rec)
  | handled current => current = run.snap ∧ run.UpTo stored (seen + 1)

/-- More records do not matter to the poller. -/
lemma IntPollPc.Ok.concat {run : PollRun} {stored : List ParkingRecord} {seen : ℕ} {pc : IntPollPc}
    (h : pc.Ok run stored seen) (rec : ParkingRecord) : pc.Ok run (stored ++ [rec]) seen := by
  cases pc with
  | idle => trivial
  | loop current => exact ⟨h.1, h.2.concat rec⟩
  | copied current rec' =>
    obtain ⟨hcurrent, hupto, hlt, hrec⟩ := h
    have hle := hupto.snap_le
    refine ⟨hcurrent, hupto.concat rec, hlt, fun hlag => ?_⟩
    rw [List.getElem?_append_left (by omega), hrec hlag]
  | handled current => exact ⟨h.1, h.2.concat rec⟩

/-- The invariant while the counters are in range. -/
structure CounterInv (s : CounterSys) : Prop where
  recordCount_eq : s.shm.recordCount = s.stored.length
  lastSeen_eq : s.lastSeen = s.seen
  seen_le : s.seen ≤ s.stored.length
  complete : ∀ rec ∈ s.stored, rec.complete = true
  stored_le_begun : s.stored.length ≤ s.begun
  begun_le : s.begun ≤ s.stored.length + 1
  window : Window shmMaxRecords s.shm.records s.stored (s.begun - shmMaxRecords) s.stored.length
  index_mem : ∀ idx ∈ s.indices, 0 ≤ idx ∧ idx < shmMaxRecords
  polls : ∀ run ∈ s.polls, run.UpTo s.stored run.snap
  store : s.store.Ok s.shm s.stored s.begun
  poll : s.poll.Ok s.run s.stored s.seen

namespace IntArea

variable {area area' : IntArea} {rec : ParkingRecord}

/-- A write to the slot of a number succeeds. -/
lemma write_mod (area : IntArea) (n : ℕ) (rec : ParkingRecord) :
    ∃ area', area.write ((n % shmMaxRecords : ℕ) : ℤ) rec = some area' ∧
      area'.recordCount = area.recordCount ∧
      area'.records = area.records.set (n % shmMaxRecords) rec := by
  have hlt : n % shmMaxRecords < shmMaxRecords := Nat.mod_lt _ (by norm_num)
  have hmem : 0 ≤ ((n % shmMaxRecords : ℕ) : ℤ) ∧ ((n % shmMaxRecords : ℕ) : ℤ) < shmMaxRecords :=
    ⟨Int.natCast_nonneg _, by exact_mod_cast hlt⟩
  refine ⟨_, if_pos hmem, rfl, ?_⟩
  simp only [Int.toNat_natCast]

/-- A read of the slot of a number succeeds. -/
lemma read_mod (area : IntArea) (n : ℕ) :
    ∃ rec, area.read ((n % shmMaxRecords : ℕ) : ℤ) = some rec ∧
      area.records[n % shmMaxRecords]? = some rec := by
  have hlt : n % shmMaxRecords < area.records.length := by
    rw [area.length_records]
    exact Nat.mod_lt _ (by norm_num)
  refine ⟨area.records[n % shmMaxRecords], ?_, List.getElem?_eq_getElem hlt⟩
  rw [read, if_pos (Int.natCast_nonneg _), Int.toNat_natCast, List.getElem?_eq_getElem hlt]

end IntArea

/-- The index of a counter that has not overflown. -/
lemma slotIndex_natCast (n : ℕ) : slotIndex n = (n % shmMaxRecords : ℕ) :=
  natCast_tmod n shmMaxRecords

/-- Such an index is in the table. -/
lemma slotIndex_mem (n : ℕ) : 0 ≤ slotIndex n ∧ slotIndex n < shmMaxRecords :=
  (tmod_mem_range_iff (by norm_num) _).mpr (.inl (Int.natCast_nonneg n))

namespace CounterInv

variable {s s' : CounterSys} {e : CounterEvent}

/-- At the start all counters are zero. -/
lemma init : CounterInv .init where
  recordCount_eq := rfl
  lastSeen_eq := rfl
  seen_le := le_rfl
  complete := by simp [CounterSys.init]
  stored_le_begun := le_rfl
  begun_le := Nat.zero_le _
  window := .empty (Nat.zero_le _)
  index_mem := by simp [CounterSys.init]
  polls := by simp [CounterSys.init]
  store := trivial
  poll := trivial

/-- One more index of the array. -/
lemma index_mem_concat (h : CounterInv s) (n : ℕ) :
    ∀ idx ∈ s.indices ++ [slotIndex n], 0 ≤ idx ∧ idx < shmMaxRecords :=
  List.forall_mem_append.mpr ⟨h.index_mem, List.forall_mem_singleton.mpr (slotIndex_mem n)⟩

/-- What a read of a slot finds, unless the server is too far ahead. -/
lemma read_eq (h : CounterInv s) (hlt : s.seen < s.stored.length) :
    ∃ rec, s.shm.read (slotIndex s.lastSeen) = some rec ∧
      (s.lag ≤ shmMaxRecords → s.stored[s.seen]? = some rec) := by
  obtain ⟨rec, hread, hrec⟩ := s.shm.read_mod s.seen
  refine ⟨rec, by rw [h.lastSeen_eq, slotIndex_natCast, hread], fun hlag => ?_⟩
  have hle := h.stored_le_begun
  rw [CounterSys.lag] at hlag
  rw [← h.window s.seen (by omega) hlt, hrec]

/-- A slot is written. -/
lemma writeSlot (h : CounterInv s) (hs : intRingStep s .writeSlot = some s') : CounterInv s' := by
  obtain ⟨rec, idx, hstore, hcase⟩ := intRingStep_writeSlot.mp hs
  obtain ⟨rfl, hcomplete⟩ : IntStorePc.Ok s.shm s.stored s.begun (.entered rec idx) :=
    hstore ▸ h.store
  obtain ⟨shm, hwrite, hcount, hrecords⟩ := s.shm.write_mod s.stored.length rec
  rw [hwrite] at hcase
  obtain ⟨_, heq, rfl⟩ := hcase.resolve_right (by simp)
  obtain rfl := Option.some.inj heq
  have hmod : s.stored.length % shmMaxRecords < s.shm.records.length := by
    rw [s.shm.length_records]
    exact Nat.mod_lt _ (by norm_num)
  have hbegun := h.stored_le_begun
  have hbegun' := h.begun_le
  exact { h with
    recordCount_eq := hcount.trans h.recordCount_eq
    stored_le_begun := Nat.le_succ _
    begun_le := le_rfl
    window := by
      simp only [hrecords]
      exact (h.window.mono (by omega)).set (by simp only [shmMaxRecords]; omega)
    index_mem := by
      rw [← slotIndex_natCast]
      exact h.index_mem_concat _
    store := ⟨by rw [hrecords, List.getElem?_set_self hmod], hcomplete, rfl⟩ }

/-- A record is counted. -/
lemma increment (h : CounterInv s) (hlt : s.stored.length + 1 < 2 ^ 31)
    (hs : intRingStep s .increment = some s') : CounterInv s' := by
  obtain ⟨rec, hstore, rfl⟩ := intRingStep_increment.mp hs
  obtain ⟨hslot, hcomplete, hbegun⟩ : IntStorePc.Ok s.shm s.stored s.begun (.written rec) :=
    hstore ▸ h.store
  have hlength : (s.stored ++ [rec]).length = s.stored.length + 1 := by simp
  exact { h with
    recordCount_eq := by
      rw [hlength, ← wrapSigned_natCast hlt, Nat.cast_succ, ← h.recordCount_eq]
      rfl
    seen_le := by
      rw [hlength]
      exact h.seen_le.trans (Nat.le_succ _)
    complete := List.forall_mem_append.mpr ⟨h.complete, List.forall_mem_singleton.mpr hcomplete⟩
    stored_le_begun := by rw [hlength, hbegun]
    begun_le := by
      rw [hlength, hbegun]
      exact Nat.le_succ _
    window := by
      rw [hlength]
      exact h.window.concat rfl hslot
    polls := fun run hrun => (h.polls run hrun).concat rec
    store := trivial
    poll := h.poll.concat rec }

/-- A slot is copied. -/
lemma readSlot (h : CounterInv s) (hs : intRingStep s .readSlot = some s') : CounterInv s' := by
  obtain ⟨current, hpoll, hlt, hcase⟩ := intRingStep_readSlot.mp hs
  obtain ⟨rfl, hupto⟩ : IntPollPc.Ok s.run s.stored s.seen (.loop current) := hpoll ▸ h.poll
  rw [h.lastSeen_eq, Nat.cast_lt] at hlt
  obtain ⟨rec, hread, hrec⟩ := h.read_eq (hlt.trans_le hupto.snap_le)
  rw [hread] at hcase
  obtain ⟨_, heq, rfl⟩ := hcase.resolve_right (by simp)
  obtain rfl := Option.some.inj heq
  exact { h with
    index_mem := by
      rw [h.lastSeen_eq]
      exact h.index_mem_concat _
    poll := ⟨rfl, hupto.max_lag _, hlt, fun hlag => hrec ((le_max_right _ _).trans hlag)⟩ }

/-- The copy is inserted. -/
lemma insert (h : CounterInv s) (hs : intRingStep s .insert = some s') : CounterInv s' := by
  obtain ⟨current, rec, hpoll, hcase⟩ := intRingStep_insert.mp hs
  obtain ⟨hcurrent, hupto, hlt, hrec⟩ : IntPollPc.Ok s.run s.stored s.seen (.copied current rec) :=
    hpoll ▸ h.poll
  rcases hcase with ⟨-, rfl⟩ | ⟨hincomplete, rfl⟩
  · exact { h with poll := ⟨hcurrent, hupto.take hlt hrec⟩ }
  · have hlag : ¬ s.run.maxLag ≤ shmMaxRecords := by
      intro hlag
      rw [h.complete rec (List.mem_of_getElem? (hrec hlag))] at hincomplete
      cases hincomplete
    exact { h with poll := ⟨hcurrent, hupto.skip hlt hlag⟩ }

/-- **Every step keeps the invariant**, as long as the counters stay in range. -/
lemma step (h : CounterInv s) (hlt : s'.stored.length < 2 ^ 31) (hok : StoresComplete s e)
    (hs : counterStep s e = some s') : CounterInv s' := by
  obtain ⟨-, hs⟩ : s.outside = false ∧ _ := by simpa [counterStep] using hs
  cases e with
  | serverRestart =>
    obtain rfl := Option.some.inj hs
    exact { h with store := trivial }
  | dbRestart =>
    obtain rfl := Option.some.inj hs
    exact { h with lastSeen_eq := rfl, seen_le := Nat.zero_le _, poll := trivial }
  | ring e =>
    cases e with
    | storeRecord rec =>
      obtain ⟨-, rfl⟩ := intRingStep_storeRecord.mp hs
      have hidx : slotIndex s.shm.recordCount = (s.stored.length % shmMaxRecords : ℕ) := by
        rw [h.recordCount_eq, slotIndex_natCast]
      exact { h with store := ⟨hidx, hok⟩ }
    | writeSlot => exact h.writeSlot hs
    | increment =>
      refine h.increment ?_ hs
      obtain ⟨rec, -, rfl⟩ := intRingStep_increment.mp hs
      simpa using hlt
    | snapshot =>
      obtain ⟨-, rfl⟩ := intRingStep_snapshot.mp hs
      exact { h with
        poll := ⟨h.recordCount_eq, le_rfl, h.seen_le, le_rfl, fun _ => by simp⟩ }
    | readSlot => exact h.readSlot hs
    | insert => exact h.insert hs
    | advance =>
      obtain ⟨current, hpoll, rfl⟩ := intRingStep_advance.mp hs
      obtain ⟨hcurrent, hupto⟩ : IntPollPc.Ok s.run s.stored s.seen (.handled current) :=
        hpoll ▸ h.poll
      have hle : s.seen + 1 ≤ s.stored.length := hupto.le_snap.trans hupto.snap_le
      exact { h with
        lastSeen_eq := by
          simp only [h.lastSeen_eq]
          exact_mod_cast wrapSigned_natCast (hle.trans_lt hlt)
        seen_le := hle
        poll := ⟨hcurrent, hupto⟩ }
    | pollReturn =>
      obtain ⟨current, hpoll, hle, rfl⟩ := intRingStep_pollReturn.mp hs
      obtain ⟨rfl, hupto⟩ : IntPollPc.Ok s.run s.stored s.seen (.loop current) := hpoll ▸ h.poll
      have hseen : s.seen = s.run.snap := by
        rw [h.lastSeen_eq, Nat.cast_le] at hle
        exact le_antisymm hupto.le_snap hle
      exact { h with
        polls := List.forall_mem_append.mpr
          ⟨h.polls, List.forall_mem_singleton.mpr (hseen ▸ hupto)⟩
        poll := trivial }

/-- What the invariant says of the indices and the polls. -/
lemma ok (h : CounterInv s) : CounterOk s where
  index_mem := h.index_mem
  picksUp run hrun hlag := (h.polls run hrun).picksUp hlag

end CounterInv

/-- Records are never taken back. -/
lemma counterStep_stored_le {s s' : CounterSys} {e : CounterEvent}
    (hs : counterStep s e = some s') : s.stored.length ≤ s'.stored.length := by
  obtain ⟨-, hs⟩ : s.outside = false ∧ _ := by simpa [counterStep] using hs
  cases e with
  | serverRestart | dbRestart =>
    obtain rfl := Option.some.inj hs
    exact le_rfl
  | ring e =>
    cases e with
    | storeRecord rec =>
      obtain ⟨-, rfl⟩ := intRingStep_storeRecord.mp hs
      exact le_rfl
    | writeSlot =>
      obtain ⟨_, _, _, ⟨_, _, rfl⟩ | ⟨_, rfl⟩⟩ := intRingStep_writeSlot.mp hs <;> exact le_rfl
    | increment =>
      obtain ⟨rec, -, rfl⟩ := intRingStep_increment.mp hs
      simp
    | snapshot =>
      obtain ⟨-, rfl⟩ := intRingStep_snapshot.mp hs
      exact le_rfl
    | readSlot =>
      obtain ⟨_, _, _, ⟨_, _, rfl⟩ | ⟨_, rfl⟩⟩ := intRingStep_readSlot.mp hs <;> exact le_rfl
    | insert =>
      obtain ⟨_, _, _, ⟨_, rfl⟩ | ⟨_, rfl⟩⟩ := intRingStep_insert.mp hs <;> exact le_rfl
    | advance =>
      obtain ⟨_, -, rfl⟩ := intRingStep_advance.mp hs
      exact le_rfl
    | pollReturn =>
      obtain ⟨_, -, -, rfl⟩ := intRingStep_pollReturn.mp hs
      exact le_rfl

/-- **Counters in range.**  The invariant holds in every run in which fewer than `2 ^ 31` records
are stored. -/
lemma CounterInv.of_trace {es : List CounterEvent} {s : CounterSys}
    (h : Trace counterStep StoresComplete .init es s) (hlt : s.stored.length < 2 ^ 31) :
    CounterInv s := by
  induction h with
  | nil => exact .init
  | snoc _ hok hs ih => exact (ih ((counterStep_stored_le hs).trans_lt hlt)).step hlt hok hs

/-! ## The end of the range -/

/-- Both processes are idle, and the database process has passed over all of `k` records. -/
structure CaughtUp (k : ℕ) (s : CounterSys) : Prop where
  outside : s.outside = false
  store : s.store = .idle
  poll : s.poll = .idle
  recordCount : s.shm.recordCount = k
  lastSeen : s.lastSeen = k
  seen : s.seen = k
  length_stored : s.stored.length = k

/-- Both processes are idle, and one record was stored since the database process caught up. -/
structure OneBehind (k : ℕ) (s : CounterSys) : Prop where
  outside : s.outside = false
  store : s.store = .idle
  poll : s.poll = .idle
  recordCount : s.shm.recordCount = wrapSigned 32 (k + 1)
  lastSeen : s.lastSeen = k
  seen : s.seen = k
  length_stored : s.stored.length = k + 1
  begun : s.begun = k + 1

section Rounds

variable {s : CounterSys} {k : ℕ}

/-- Within the table the counters step as the ring does. -/
lemma counterStep_ring (h : s.outside = false) (e : RingEvent) :
    counterStep s (.ring e) = intRingStep s e := by
  simp [counterStep, h]

/-- A record is stored. -/
lemma CaughtUp.store_one (h : CaughtUp k s) :
    ∃ es s', Trace counterStep StoresComplete s es s' ∧ OneBehind k s' := by
  obtain ⟨rec, hrec⟩ : ∃ rec : ParkingRecord, rec.complete = true :=
    ⟨{ ParkingRecord.zero with complete := true }, rfl⟩
  obtain ⟨shm, hwrite, hcount, -⟩ := s.shm.write_mod k rec
  have hidx : slotIndex s.shm.recordCount = (k % shmMaxRecords : ℕ) := by
    rw [h.recordCount, slotIndex_natCast]
  rw [← hidx] at hwrite
  let s₁ : CounterSys := { s with store := .entered rec (slotIndex s.shm.recordCount) }
  let s₂ : CounterSys := { s with
    shm := shm
    store := .written rec
    begun := s.stored.length + 1
    indices := s.indices ++ [slotIndex s.shm.recordCount] }
  have hentered : counterStep s (.ring (.storeRecord rec)) = some s₁ :=
    (counterStep_ring h.outside _).trans (intRingStep_storeRecord.mpr ⟨h.store, rfl⟩)
  have hwritten : counterStep s₁ (.ring .writeSlot) = some s₂ :=
    (counterStep_ring (s := s₁) h.outside _).trans
      (intRingStep_writeSlot.mpr ⟨rec, _, rfl, .inl ⟨shm, hwrite, rfl⟩⟩)
  have hcounted : counterStep s₂ (.ring .increment) =
      some { s₂ with shm := shm.increment, store := .idle, stored := s.stored ++ [rec] } :=
    (counterStep_ring (s := s₂) h.outside _).trans (intRingStep_increment.mpr ⟨rec, rfl, rfl⟩)
  have hok : StoresComplete s (.ring (.storeRecord rec)) := hrec
  refine ⟨_, _, ((Trace.nil.snoc hok hentered).snoc (by trivial) hwritten).snoc (by trivial)
    hcounted, ?_⟩
  exact {
    outside := h.outside
    store := rfl
    poll := h.poll
    recordCount := by rw [IntArea.increment, hcount, h.recordCount]
    lastSeen := h.lastSeen
    seen := h.seen
    length_stored := by rw [List.length_append, List.length_singleton, h.length_stored]
    begun := by simp only [s₂, h.length_stored] }

/-- A poll passes over the record, as long as the counters stay in range. -/
lemma OneBehind.poll_one (h : OneBehind k s) (hk : k + 1 < 2 ^ 31) :
    ∃ es s', Trace counterStep StoresComplete s es s' ∧ CaughtUp (k + 1) s' := by
  have hcount : s.shm.recordCount = (k + 1 : ℕ) := by
    rw [h.recordCount]
    exact_mod_cast wrapSigned_natCast hk
  obtain ⟨rec, hread, -⟩ := s.shm.read_mod k
  rw [← slotIndex_natCast, ← h.lastSeen] at hread
  let s₁ : CounterSys := { s with
    poll := .loop s.shm.recordCount
    run := ⟨s.seen, s.stored.length, s.lag, []⟩ }
  let s₂ : CounterSys := { s₁ with
    poll := .copied s.shm.recordCount rec
    indices := s.indices ++ [slotIndex s.lastSeen]
    run := { s₁.run with maxLag := max s₁.run.maxLag s.lag } }
  have hsnapshot : counterStep s (.ring .snapshot) = some s₁ :=
    (counterStep_ring h.outside _).trans (intRingStep_snapshot.mpr ⟨h.poll, rfl⟩)
  have hlt : s.lastSeen < s.shm.recordCount := by
    rw [h.lastSeen, hcount]
    exact_mod_cast Nat.lt_succ_self k
  have hcopied : counterStep s₁ (.ring .readSlot) = some s₂ :=
    (counterStep_ring (s := s₁) h.outside _).trans
      (intRingStep_readSlot.mpr ⟨_, rfl, hlt, .inl ⟨rec, hread, rfl⟩⟩)
  obtain ⟨run, hhandled⟩ : ∃ run, counterStep s₂ (.ring .insert) =
      some { s₂ with poll := .handled s.shm.recordCount, run := run } := by
    rw [counterStep_ring (s := s₂) h.outside]
    cases hrec : rec.complete with
    | true => exact ⟨_, intRingStep_insert.mpr ⟨_, rec, rfl, .inl ⟨hrec, rfl⟩⟩⟩
    | false => exact ⟨s₂.run, intRingStep_insert.mpr ⟨_, rec, rfl, .inr ⟨hrec, rfl⟩⟩⟩
  let s₃ : CounterSys := { s₂ with poll := .handled s.shm.recordCount, run := run }
  let s₄ : CounterSys := { s₃ with
    poll := .loop s.shm.recordCount
    lastSeen := wrapSigned 32 (s.lastSeen + 1)
    seen := s.seen + 1 }
  have hseen : s₄.lastSeen = (k + 1 : ℕ) := by
    simp only [s₄, h.lastSeen]
    exact_mod_cast wrapSigned_natCast hk
  have hadvanced : counterStep s₃ (.ring .advance) = some s₄ :=
    (counterStep_ring (s := s₃) h.outside _).trans (intRingStep_advance.mpr ⟨_, rfl, rfl⟩)
  have hreturned : counterStep s₄ (.ring .pollReturn) =
      some { s₄ with poll := .idle, polls := s₄.polls ++ [s₄.run] } :=
    (counterStep_ring (s := s₄) h.outside _).trans
      (intRingStep_pollReturn.mpr ⟨_, rfl, by rw [hcount, hseen], rfl⟩)
  refine ⟨_, _, ((((Trace.nil.snoc (by trivial) hsnapshot).snoc (by trivial) hcopied).snoc
    (by trivial) hhandled).snoc (by trivial) hadvanced).snoc (by trivial) hreturned, ?_⟩
  exact {
    outside := h.outside
    store := h.store
    poll := rfl
    recordCount := hcount
    lastSeen := hseen
    seen := by simp only [s₄, h.seen]
    length_stored := h.length_stored }

/-- For every number of records in range there is a run that stores them and polls each. -/
lemma exists_caughtUp (hk : k < 2 ^ 31) :
    ∃ es s, Trace counterStep StoresComplete .init es s ∧ CaughtUp k s := by
  induction k with
  | zero => exact ⟨[], .init, .nil, ⟨rfl, rfl, rfl, rfl, rfl, rfl, rfl⟩⟩
  | succ k ih =>
    obtain ⟨es, s, h, hcaught⟩ := ih (k.lt_succ_self.trans hk)
    obtain ⟨es₁, s₁, h₁, hbehind⟩ := hcaught.store_one
    obtain ⟨es₂, s₂, h₂, hcaught'⟩ := hbehind.poll_one hk
    exact ⟨_, s₂, (h.append h₁).append h₂, hcaught'⟩

/-- **The end of the range.**  When the last number of the range is passed, the next poll takes
nothing. -/
lemma exists_poll_takes_nothing :
    ∃ es s, Trace counterStep StoresComplete .init es s ∧ s.stored.length = 2 ^ 31 ∧
      ¬ CounterOk s := by
  obtain ⟨es, s, h, hcaught⟩ := exists_caughtUp (k := 2 ^ 31 - 1) (by norm_num)
  obtain ⟨es₁, s₁, h₁, hbehind⟩ := hcaught.store_one
  have hcount : s₁.shm.recordCount = -2 ^ 31 := by
    rw [hbehind.recordCount, ← wrapSigned_two_pow]
    norm_num
  let s₂ : CounterSys := { s₁ with
    poll := .loop s₁.shm.recordCount
    run := ⟨s₁.seen, s₁.stored.length, s₁.lag, []⟩ }
  have hsnapshot : counterStep s₁ (.ring .snapshot) = some s₂ :=
    (counterStep_ring hbehind.outside _).trans (intRingStep_snapshot.mpr ⟨hbehind.poll, rfl⟩)
  have hle : s₁.shm.recordCount ≤ s₁.lastSeen := by
    rw [hcount, hbehind.lastSeen]
    norm_num
  have hreturned : counterStep s₂ (.ring .pollReturn) =
      some { s₂ with poll := .idle, polls := s₂.polls ++ [s₂.run] } :=
    (counterStep_ring (s := s₂) hbehind.outside _).trans
      (intRingStep_pollReturn.mpr ⟨_, rfl, hle, rfl⟩)
  have hlength : s₁.stored.length = 2 ^ 31 := hbehind.length_stored
  refine ⟨_, _, ((h.append h₁).snoc (by trivial) hsnapshot).snoc (by trivial) hreturned, hlength,
    ?_⟩
  intro hok
  have hlag : s₂.run.maxLag ≤ shmMaxRecords := by
    simp only [s₂, CounterSys.lag, hbehind.begun, hbehind.seen]
    norm_num
  have hsub := (hok.picksUp s₂.run (by simp) hlag).length_le
  simp only [s₂, List.length_drop, List.length_take, List.length_nil, hbehind.seen, hlength] at hsub
  norm_num at hsub

end Rounds

/-- **Signed counters.**  In all runs that store at most `n` records, slots are written and read at
indices of the array and the polls pick up the new records, if and only if `n` is in the range of
`int`. -/
theorem counterOk_iff (n : ℕ) :
    (∀ es s, Trace counterStep StoresComplete .init es s → s.stored.length ≤ n → CounterOk s) ↔
      n < 2 ^ 31 := by
  constructor
  · intro h
    by_contra hn
    obtain ⟨es, s, htrace, hlength, hnot⟩ := exists_poll_takes_nothing
    exact hnot (h es s htrace (hlength ▸ not_lt.mp hn))
  · intro hn es s h hle
    exact (CounterInv.of_trace h (hle.trans_lt hn)).ok

/-- The record with the number `2 ^ 31 - 1` is not picked up. -/
theorem not_every_run_counterOk :
    ¬ ∀ es s, Trace counterStep StoresComplete .init es s → CounterOk s := by
  intro h
  obtain ⟨es, s, htrace, -, hnot⟩ := exists_poll_takes_nothing
  exact hnot (h es s htrace)

/-- Two stores later the index is outside the array. -/
example : slotIndex (wrapSigned 32 (2 ^ 31 + 1)) = -255 := by decide

end ParkingSystem
